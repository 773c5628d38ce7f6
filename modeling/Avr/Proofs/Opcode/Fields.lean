import Avr.Proofs.Opcode.Digits
import Avr.Proofs.Opcode.Synonym

/-!
# What filled templates and words hold

* `Holds` : bits that are a number modulo a power of two, so that negative ones are in two's complement;
* `getElem?_fill` : what stands in each place of a filled template;
* `Filled` : each field holds its number, and all other places are those of the template; `filled_fill` : so it is
  once a template is filled;
* `Word.digits` : the binary digits of a word; `digits_ofNat` : those of a word that is put together from bits;
* `digits_words` : the words of an opcode have its digits, one word after the other;
* `fields_exact` : both halves together.
-/

namespace Avr

/-! ## Numbers in fields -/

/-- Bits that hold a number in `w` places, the first one most significant. They are the number modulo a power of two,
and read in two's complement they give back every number for which there is room. -/
structure Holds (bs : List Bool) (w : Nat) (v : Int) : Prop where
  length : bs.length = w
  number : (numberOfBits bs : Int) = v % 2 ^ w
  signed : -2 ^ w ≤ 2 * v → 2 * v < 2 ^ w → (BitVec.ofNat w (numberOfBits bs)).toInt = v

theorem holds_lowBits (w : Nat) (v : Int) : Holds (lowBits w v) w v := by
  refine ⟨length_lowBits w v, numberOfBits_lowBits w v, fun hlow hhigh => ?_⟩
  have hpow : ((2 ^ w : Nat) : Int) = 2 ^ w := by push_cast; rfl
  have hmod : (v % ((2 ^ w : Nat) : Int)).bmod (2 ^ w) = v := by
    rw [Int.emod_bmod]
    apply Int.bmod_eq_of_le_mul_two <;> rw [hpow] <;> omega
  rwa [hpow, ← numberOfBits_lowBits, ← BitVec.toInt_ofNat'] at hmod

/-! ## Places of a template -/

/-- In its place each character has what is filled in for it, with as many places of its letter behind. -/
theorem getElem?_fill {values : List (Char × Int)} (h : Lettered values) (cs : List Char) (n : Nat) :
    (fill cs values)[n]? = cs[n]?.map fun c => placed values c ((cs.drop (n + 1)).count c) := by
  induction cs generalizing n with
  | nil =>
    rw [fill_nil]
    rfl
  | cons c cs ih =>
    rw [fill_cons h]
    cases n with
    | zero => rfl
    | succ n => exact ih n

/-- A template is filled: where it has no letter it is as before, the other places are digits, and the places of each
letter hold its number. -/
structure Filled (template : List Char) (values : List (Char × Int)) (bits : List Char) : Prop where
  length : bits.length = template.length
  kept : ∀ (n : Nat) (c : Char), template[n]? = some c → c ∉ values.map Prod.fst → bits[n]? = some c
  digits : ∀ (n : Nat) (c : Char), template[n]? = some c → c ∈ values.map Prod.fst →
    bits[n]? = some '0' ∨ bits[n]? = some '1'
  field : ∀ p ∈ values, Holds (fieldBits p.1 template bits) (template.count p.1) p.2

theorem filled_fill {values : List (Char × Int)} (h : Lettered values) (hnodup : (values.map Prod.fst).Nodup)
    (template : List Char) : Filled template values (fill template values) := by
  refine ⟨length_fill template h, fun n c hc hout => ?_, fun n c hc hin => ?_, fun p hp => ?_⟩
  · have hlookup : values.lookup c = none := by
      rw [List.lookup_eq_none_iff]
      intro p hp
      exact bne_iff_ne.2 fun heq => hout (List.mem_map.2 ⟨p, hp, heq.symm⟩)
    rw [getElem?_fill h, hc, Option.map_some, placed, hlookup]
  · obtain ⟨⟨letter, v⟩, hmem, rfl⟩ := List.mem_map.1 hin
    rw [getElem?_fill h, hc, Option.map_some, placed, lookup_of_mem hnodup hmem]
    exact (digit_eq _).imp (congrArg some) (congrArg some)
  · rw [fieldBits_fill h (lookup_of_mem hnodup hp)]
    exact holds_lowBits _ _

example : fill "1110KKKKddddKKKK".toList [('d', 0), ('K', 0xA5)] = "1110101000000101".toList := by decide

/-! ## Words -/

/-- The bits that make up a number, counted from the last one. -/
theorem testBit_numberOfBits {bs : List Bool} {k : Nat} (h : k < bs.length) :
    (numberOfBits bs).testBit (bs.length - 1 - k) = bs[k] := by
  induction bs generalizing k with
  | nil => nomatch h
  | cons b bs ih =>
    rw [numberOfBits_cons, Nat.mul_comm, Nat.testBit_two_pow_mul_add _ (numberOfBits_lt bs), List.length_cons]
    cases k with
    | zero =>
      rw [if_neg (by omega), Nat.add_sub_cancel, Nat.sub_zero, Nat.sub_self]
      cases b <;> rfl
    | succ k =>
      rw [List.length_cons] at h
      rw [if_pos (by omega), List.getElem_cons_succ, ← ih (Nat.lt_of_succ_lt_succ h)]
      congr 1
      omega

/-- The binary digits of a word, the first one most significant. -/
def Word.digits (w : Word) : List Char := (List.range 16).map fun k => digit (w.getMsbD k)

theorem digits_ofNat {bs : List Bool} (h : bs.length = 16) :
    Word.digits (BitVec.ofNat 16 (numberOfBits bs)) = bs.map digit := by
  apply List.ext_getElem
  · simp [Word.digits, h]
  · intro k hk hk'
    rw [List.length_map] at hk'
    have hbit := testBit_numberOfBits hk'
    rw [h] at hk' hbit
    have hlow : 16 - 1 - k < 16 := by omega
    simp [Word.digits, BitVec.getMsbD_eq_getLsbD, BitVec.getLsbD_ofNat, hk', hlow, hbit]

/-- The words of an opcode have its digits, one word after the other. -/
theorem digits_words {i : Instruction} (hdigits : ∀ c ∈ i.opcode.toList, c = '0' ∨ c = '1')
    (heven : 16 ∣ i.opcode.toList.length) : i.words.flatMap Word.digits = i.opcode.toList := by
  have hbits := Instruction.bits_of_digits hdigits
  have hrows : ∀ row ∈ sixteens i.bits, row.length = 16 := by
    apply length_of_mem_sixteens
    rwa [hbits, List.length_map]
  calc i.words.flatMap Word.digits
      = (sixteens i.bits).flatMap fun row => Word.digits (BitVec.ofNat 16 (numberOfBits row)) := List.flatMap_map _ _ _
    _ = (sixteens i.bits).flatMap (List.map digit) := List.flatMap_congr fun row hrow => digits_ofNat (hrows row hrow)
    _ = i.bits.map digit := by rw [List.flatMap_def, ← List.map_flatten, flatten_sixteens]
    _ = i.opcode.toList := by rw [hbits, map_digit hdigits]

/-- Templates and words are exact. A template that is filled has its length. Each place without a letter is as before,
and the places of each letter hold its number in as many binary digits as there are places, in a row or not, whatever
else is filled in. The order of the letters does not matter. The words of an opcode of whole words have its digits,
one word after the other. -/
theorem fields_exact :
    (∀ (template : List Char) (values : List (Char × Int)), Lettered values → (values.map Prod.fst).Nodup →
      Filled template values (fill template values) ∧
        ∀ values', values.Perm values' → fill template values' = fill template values) ∧
    ∀ i : Instruction, (∀ c ∈ i.opcode.toList, c = '0' ∨ c = '1') → 16 ∣ i.opcode.toList.length →
      i.words.flatMap Word.digits = i.opcode.toList :=
  ⟨fun template _ h hnodup =>
      ⟨filled_fill h hnodup template, fun _ hperm => (fill_perm hperm h hnodup template).symm⟩,
    fun _ hdigits heven => digits_words hdigits heven⟩

/-- The template of an instruction with a constant in two halves around a register. -/
def halvedTemplate : List Char := "0111KKKKddddKKKK".toList

def farJump : Instruction := ⟨.JMP, [.imm 2], "10010100000011000000000000000010", 1⟩

theorem fields_exact_halved :
    Lettered [('d', 5), ('K', -16)] ∧ ([('d', (5 : Int)), ('K', -16)].map Prod.fst).Nodup ∧
      (numberOfBits (fieldBits 'K' halvedTemplate (fill halvedTemplate [('d', 5), ('K', -16)])) : Int) = 0xF0 ∧
      fill halvedTemplate [('K', -16), ('d', 5)] = fill halvedTemplate [('d', 5), ('K', -16)] ∧
      (∀ c ∈ farJump.opcode.toList, c = '0' ∨ c = '1') ∧ 16 ∣ farJump.opcode.toList.length ∧
      farJump.words.flatMap Word.digits = farJump.opcode.toList := by
  have hletters : Lettered [('d', 5), ('K', -16)] := lettered_two 5 (-16) (by decide) (by decide)
  have hnodup : ([('d', (5 : Int)), ('K', -16)].map Prod.fst).Nodup := by decide
  obtain ⟨hfilled, horder⟩ := fields_exact.1 halvedTemplate _ hletters hnodup
  have hall : (farJump.opcode.toList.all fun c => c == '0' || c == '1') = true := by decide
  have hdigits : ∀ c ∈ farJump.opcode.toList, c = '0' ∨ c = '1' := fun c hc => by
    simpa using List.all_eq_true.1 hall c hc
  have heven : 16 ∣ farJump.opcode.toList.length := by decide
  have hcount : halvedTemplate.count 'K' = 8 := by decide
  have hnumber := (hfilled.field ('K', -16) (by simp)).number
  rw [hcount] at hnumber
  exact ⟨hletters, hnodup, hnumber, horder _ (.swap _ _ []), hdigits, heven, fields_exact.2 farJump hdigits heven⟩

end Avr

import Avr.Proofs.Opcode.Injective

/-!
# Opcodes are words of binary digits

* `BinaryDigits` : a text of as many binary digits as some words have;
* `Entry.Sized`, `width_eq` : a template has as many words as its instruction, which is two for four of them;
* `digits_fill` : a template is all digits once every letter in it has a number;
* `encode_digits` : the opcode of operands of the right kinds has a word of digits for each slot;
* `Instruction.bits_of_digits` : each digit of an opcode is one bit;
* `Instruction.Accepted.words_head` : the first word of an instruction is the number of its first 16 digits.
-/

namespace Avr

open Catalog

/-- Characters that are the binary digits of `n` words. -/
def BinaryDigits (n : Nat) (cs : List Char) : Prop := cs.length = 16 * n ∧ ∀ c ∈ cs, c = '0' ∨ c = '1'

/-! ## Widths -/

/-- The width of an entry is what its template occupies. -/
def Catalog.Entry.Sized (e : Entry) : Prop :=
  e.width = match e.encoding with
    | .template _ bits => bits.length / 16
    | .irregular => 1

namespace Catalog.Entry

theorem sized_template (args : List ArgSpec) (fields bits : String) : (template args fields bits).Sized := rfl

theorem sized_irregular (args : List ArgSpec) : (irregular args).Sized := rfl

theorem sized_taking (e : Entry) (cycles : Nat) : (e.taking cycles).Sized ↔ e.Sized := Iff.rfl

theorem sized_relative (e : Entry) : e.relative.Sized ↔ e.Sized := Iff.rfl

theorem sized_absolute (e : Entry) : e.absolute.Sized ↔ e.Sized := Iff.rfl

end Catalog.Entry

theorem sized_entry (m : Mnemonic) : m.entry.Sized := by
  unfold Mnemonic.entry
  split <;>
    simp only [Entry.sized_taking, Entry.sized_relative, Entry.sized_absolute, Entry.sized_template,
      Entry.sized_irregular]

def doubleWords : List Mnemonic := [.CALL, .JMP, .LDS, .STS]

/-- Whether a template is made of digits and the letters of its fields, in `n` words. -/
def coversWords (n : Nat) (_ : List ArgSpec) (fields cs : List Char) : Bool :=
  cs.length == 16 * n && !cs.contains '_' && cs.all fun c => c == '0' || c == '1' || fields.contains c

theorem checked_coversWords (m : Mnemonic) : m.Checked (coversWords (if m ∈ doubleWords then 2 else 1)) := by
  cases m
  all_goals first
    | exact checked_of_written rfl rfl rfl rfl
    | exact checked_of_irregular rfl

theorem not_mem_doubleWords {m : Mnemonic} (hm : m.entry.encoding = .irregular) : m ∉ doubleWords := by
  intro h
  simp only [doubleWords, List.mem_cons, List.not_mem_nil, or_false] at h
  rcases h with rfl | rfl | rfl | rfl <;> cases hm

/-- All instructions but four have one word. -/
theorem width_eq (m : Mnemonic) : m.entry.width = if m ∈ doubleWords then 2 else 1 := by
  have hsized := sized_entry m
  unfold Entry.Sized at hsized
  cases hm : m.entry.encoding with
  | template fields bits =>
    have hcover := checked_coversWords m fields bits hm
    simp only [coversWords, Bool.and_eq_true, beq_iff_eq] at hcover
    rw [hm] at hsized
    dsimp only at hsized
    rw [hsized, ← String.length_toList, hcover.1.1, Nat.mul_div_cancel_left _ (by decide)]
  | irregular =>
    rw [hm] at hsized
    rw [hsized, if_neg (not_mem_doubleWords hm)]

theorem width_cases (i : Instruction) : i.width = 1 ∨ i.width = 2 := by
  rw [Instruction.width, width_eq]
  split
  · exact .inr rfl
  · exact .inl rfl

/-! ## Templates without letters -/

/-- A template is all digits once every letter in it has a number. -/
theorem digits_fill {values : List (Char × Int)} (hv : Lettered values) {cs : List Char}
    (hcs : ∀ c ∈ cs, c = '0' ∨ c = '1' ∨ (values.lookup c).isSome = true) :
    ∀ c ∈ fill cs values, c = '0' ∨ c = '1' := by
  induction cs with
  | nil =>
    rw [fill_nil]
    exact fun c hc => absurd hc List.not_mem_nil
  | cons c cs ih =>
    rw [List.forall_mem_cons] at hcs
    rw [fill_cons hv, List.forall_mem_cons]
    refine ⟨?_, ih hcs.2⟩
    unfold placed
    cases hlookup : values.lookup c with
    | some v => exact digit_eq _
    | none =>
      rw [hlookup] at hcs
      rcases hcs.1 with h | h | h
      · exact .inl h
      · exact .inr h
      · cases h

theorem binaryDigits_fill {values : List (Char × Int)} (hv : Lettered values) {cs : List Char} {n : Nat}
    (hlength : cs.length = 16 * n) (hcs : ∀ c ∈ cs, c = '0' ∨ c = '1' ∨ (values.lookup c).isSome = true) :
    BinaryDigits n (fill cs values) :=
  ⟨(length_fill cs hv).trans hlength, digits_fill hv hcs⟩

theorem isSome_lookup_of_fieldValues? {fields : List Char} {ops : List Operand} {values : List (Char × Int)}
    (hlength : fields.length = ops.length) (h : fieldValues? fields ops = some values) {letter : Char}
    (hmem : letter ∈ fields) (hletter : letter ≠ '_') : (values.lookup letter).isSome = true := by
  induction fields generalizing ops values with
  | nil => cases hmem
  | cons c fields ih =>
    cases ops with
    | nil => cases hlength
    | cons op ops =>
      have hrest : fields.length = ops.length := Nat.succ.inj hlength
      rw [fieldValues?_cons] at h
      rw [List.mem_cons] at hmem
      split at h
      · next hc =>
        rcases hmem with rfl | hmem
        · exact absurd hc hletter
        · exact ih hrest h hmem
      · obtain ⟨v, -, h⟩ := Option.bind_eq_some_iff.1 h
        obtain ⟨rest, hrestValues, rfl⟩ := Option.map_eq_some_iff.1 h
        rw [List.lookup_cons]
        split
        · rfl
        · next hne =>
          rcases hmem with rfl | hmem
          · rw [beq_self_eq_true] at hne
            cases hne
          · exact ih hrest hrestValues hmem

theorem template_digits {m : Mnemonic} {fields : List Char} {bits : String} {ops : List Operand}
    {values : List (Char × Int)} (hm : m.entry.encoding = .template fields bits) (hk : Kinded m ops)
    (hv : fieldValues? fields ops = some values) : BinaryDigits m.entry.width (fill bits.toList values) := by
  have hfit := checked_fieldsFit m fields bits hm
  have hcover := checked_coversWords m fields bits hm
  rw [← width_eq] at hcover
  simp only [fieldsFit, coversWords, Bool.and_eq_true, beq_iff_eq] at hfit hcover
  obtain ⟨⟨hlength, hblank⟩, hletters⟩ := hcover
  refine binaryDigits_fill (lettered_of_fieldValues? hm hv) hlength fun c hc => ?_
  have hletter := List.all_eq_true.1 hletters c hc
  simp only [Bool.or_eq_true, beq_iff_eq, List.contains_iff_mem] at hletter
  rcases hletter with (h | h) | hmem
  · exact .inl h
  · exact .inr (.inl h)
  · right; right
    refine isSome_lookup_of_fieldValues? (hfit.1.1.1.trans hk.length_eq) hv hmem ?_
    rintro rfl
    rw [List.contains_iff_mem.2 hc] at hblank
    cases hblank

/-- A template with two letters is all digits once both have a number. -/
theorem binaryDigits_fill_two {c d : Char} (v w : Int) (hc : c ≠ '0' ∧ c ≠ '1') (hd : d ≠ '0' ∧ d ≠ '1')
    {cs : List Char} (hlength : cs.length = 16)
    (hcs : (cs.all fun x => x == '0' || x == '1' || x == c || x == d) = true) :
    BinaryDigits 1 (fill cs [(c, v), (d, w)]) := by
  refine binaryDigits_fill (lettered_two v w hc hd) hlength fun x hx => ?_
  have hletter := List.all_eq_true.1 hcs x hx
  simp only [Bool.or_eq_true, beq_iff_eq] at hletter
  rcases hletter with ((h | h) | rfl) | rfl
  · exact .inl h
  · exact .inr (.inl h)
  · right; right
    rw [List.lookup_cons_self]
    rfl
  · right; right
    rw [List.lookup_cons]
    split
    · rfl
    · rw [List.lookup_cons_self]
      rfl

theorem access_digits {mode : PointerMode} {t : List Char} (ht : isAccess mode t = true) (v w : Int) :
    BinaryDigits 1 (fill t [('d', v), ('q', w)]) := by
  simp only [isAccess, Bool.and_eq_true, beq_iff_eq] at ht
  exact binaryDigits_fill_two v w (by decide) (by decide) ht.1.1.1 ht.1.1.2

theorem irregular_digits {m : Mnemonic} {ops : List Operand} {o : List Char} (h : encodeIrregular m ops = some o) :
    BinaryDigits 1 o := by
  unfold encodeIrregular at h
  split at h
  case h_9 | h_10 =>
    cases h
    exact access_digits (isAccess_loadTemplate _ _) _ _
  case h_11 | h_12 =>
    cases h
    exact access_digits (isAccess_storeTemplate _ _) _ _
  case h_13 => cases h
  all_goals
    cases h
    exact binaryDigits_fill_two _ _ (by decide) (by decide) (by decide) (by decide)

/-! ## Opcodes -/

/-- The opcode of operands of the right kinds has one word of digits for each slot of the instruction. -/
theorem encode_digits {m : Mnemonic} {ops : List Operand} {o : String} (hk : Kinded m ops)
    (h : encode m ops = some o) : BinaryDigits m.entry.width o.toList := by
  unfold encode at h
  cases hm : m.entry.encoding with
  | template fields bits =>
    rw [hm] at h
    obtain ⟨values, hv, rfl⟩ := Option.map_eq_some_iff.1 h
    rw [String.toList_ofList]
    exact template_digits hm hk hv
  | irregular =>
    rw [hm] at h
    obtain ⟨cs, hcs, rfl⟩ := Option.map_eq_some_iff.1 h
    rw [String.toList_ofList, width_eq, if_neg (not_mem_doubleWords hm)]
    exact irregular_digits hcs

theorem Instruction.Accepted.digits {i : Instruction} (h : i.Accepted) : BinaryDigits i.width i.opcode.toList :=
  encode_digits h.admitted.kinded h.encode

/-! ## Words -/

theorem numberOfBits_lt (bs : List Bool) : numberOfBits bs < 2 ^ bs.length := by
  induction bs with
  | nil => decide
  | cons b bs ih =>
    rw [numberOfBits_cons, List.length_cons, pow_succ]
    cases b <;> simp only [Bool.toNat_true, Bool.toNat_false] <;> omega

theorem map_digit {cs : List Char} (h : ∀ c ∈ cs, c = '0' ∨ c = '1') : (cs.map (· == '1')).map digit = cs := by
  rw [List.map_map]
  refine (List.map_congr_left fun c hc => ?_).trans (List.map_id _)
  rcases h c hc with rfl | rfl <;> rfl

/-- Each binary digit of an opcode is one bit of it. -/
theorem Instruction.bits_of_digits {i : Instruction} (h : ∀ c ∈ i.opcode.toList, c = '0' ∨ c = '1') :
    i.bits = i.opcode.toList.map (· == '1') := by
  unfold Instruction.bits
  generalize i.opcode.toList = cs at h ⊢
  induction cs with
  | nil => rfl
  | cons c cs ih =>
    rw [List.forall_mem_cons] at h
    rw [List.flatMap_cons, List.map_cons, ih h.2]
    rcases h.1 with rfl | rfl <;> rfl

theorem Instruction.Accepted.bits {i : Instruction} (h : i.Accepted) : i.bits = i.opcode.toList.map (· == '1') :=
  bits_of_digits h.digits.2

/-- The first word of an instruction is the number of its first 16 digits. -/
theorem Instruction.Accepted.words_head {i : Instruction} (h : i.Accepted) :
    i.words.head? = some (BitVec.ofNat 16 (numberOfBits ((i.opcode.toList.take 16).map (· == '1')))) := by
  have hpos : i.bits.isEmpty = false := by
    have hlength := h.digits.1
    rw [h.bits, List.isEmpty_eq_false_iff, ← List.length_pos_iff, List.length_map, hlength, Instruction.width, width_eq]
    split <;> decide
  unfold Instruction.words sixteens
  rw [hpos, h.bits, List.map_take]
  rfl

end Avr

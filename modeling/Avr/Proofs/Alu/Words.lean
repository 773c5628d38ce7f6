import Avr.Proofs.Alu.Chain

/-!
# A word and a constant at the bottom of a number of many bytes

* `wordChain` : an operation on the word in the two lowest bytes and a constant, then operations on each further byte
  and zero;
* `Exact.unique` : an exact result and its status bits are known from the numbers it is computed from;
* `exact_addWord`, `exact_subWord` : a word and a small constant give an exact result of two bytes;
* `exact_wordChain` : what the word leaves over goes up the chain;
* `Mnemonic.CombinesWord` : the instructions on a pair of registers and a constant;
* `wordChain_exact` : word arithmetic agrees with chains of bytes of any length.
-/

namespace Avr

namespace Alu

/-! ## Chains that start with a word -/

abbrev WordOp := Word → Word → Result Word

/-- Zero as a number of as many bytes as another one. -/
def zeros (bs : List Byte) : List Byte := bs.map fun _ => 0

/-- One operation on the word in the two lowest bytes and a constant, another one on each further byte and zero, each
given the status register that the one before leaves: the bytes computed, and the status register in the end. -/
def wordChain (first : WordOp) (next : ByteOp) (s : Status) (lo hi : Byte) (rest : List Byte) (k : Word) :
    List Byte × Status :=
  let r := first (wordOf lo hi) k
  let upper := chain next next (r.apply s) rest (zeros rest)
  (lowByte r.value :: highByte r.value :: upper.1, upper.2)

/-- A chain reads the carry and the zero bit off the status register it starts with. -/
theorem chain_resumed (next : ByteOp) (s : Status) (as bs : List Byte) :
    chain (fun a b _ _ => next a b (s.test .C) (s.test .Z)) next s as bs = chain next next s as bs := by
  cases as <;> cases bs <;> rfl

theorem length_zeros (bs : List Byte) : (zeros bs).length = bs.length := List.length_map ..

theorem number_zeros (bs : List Byte) : number (zeros bs) = 0 := by
  induction bs with
  | nil => rfl
  | cons b bs ih =>
    show (0 : Byte).toNat + 256 * number (zeros bs) = 0
    rw [ih]
    rfl

theorem signed_zeros (bs : List Byte) : signed (zeros bs) = 0 := by
  have hpos : 0 < 256 ^ (zeros bs).length := Nat.pow_pos (by decide)
  rw [signed, number_zeros, if_pos hpos]
  rfl

/-! ## Words as numbers of two bytes -/

theorem number_word (w : Word) : number [lowByte w, highByte w] = w.toNat := by
  simp only [number, toNat_lowByte, toNat_highByte]
  omega

theorem number_pair (lo hi : Byte) : number [lo, hi] = (wordOf lo hi).toNat := by
  simp only [number, toNat_wordOf]
  omega

theorem signed_pair (lo hi : Byte) :
    32768 ≤ number [lo, hi] ∧ signed [lo, hi] = number [lo, hi] - 65536 ∨
      number [lo, hi] < 32768 ∧ signed [lo, hi] = number [lo, hi] := by
  simp only [signed, List.length_cons, List.length_nil]
  split <;> omega

theorem bit_fifteen (w : Word) : w.getLsbD 15 = decide (32768 ≤ w.toNat) := by
  rw [← BitVec.msb_eq_getLsbD_last, BitVec.msb_eq_decide]

theorem bit_highByte (w : Word) : bit (highByte w) 7 = w.getLsbD 15 := by
  rw [bit_seven, bit_fifteen, toNat_highByte, decide_eq_decide]
  omega

/-! ## Exact results are unique -/

/-- An exact result and the status bits that go with it are known from the numbers it is computed from. -/
theorem Exact.unique {n : Nat} {u t : Int} {s : Status} {out out' : List Byte × Status} (h : Exact n u t s out)
    (h' : Exact n u t s out') :
    out.1 = out'.1 ∧ ∀ b ∈ [.C, .N, .V, .S], out.2.test b = out'.2.test b := by
  have hbytes : out.1 = out'.1 :=
    number_inj (h.length.trans h'.length.symm) (Int.natCast_inj.1 (h.value.trans h'.value.symm))
  refine ⟨hbytes, fun b hb => ?_⟩
  simp only [List.mem_cons, List.not_mem_nil, or_false] at hb
  obtain rfl | rfl | rfl | rfl := hb
  · exact h.carry.trans h'.carry.symm
  · exact Option.some.inj (h.negative.symm.trans (hbytes ▸ h'.negative))
  · exact h.overflow.trans h'.overflow.symm
  · exact h.sign.trans h'.sign.symm

/-! ## A word and a small constant -/

theorem test_apply_shift {α : Type} {r : Result α} (hr : r.mask = shiftMask) (s : Status) (b : StatusBit) :
    (r.apply s).test b = if b = .T ∨ b = .I ∨ b = .H then s.test b else r.flags.test b := by
  rw [Result.test_apply, hr]
  cases b <;> rfl

theorem exact_word {w : Word} {c z v : Bool} {u t : Int} (s : Status) (hu : (w.toNat : Int) = u % 65536)
    (ht : (w.toNat : Int) = t % 65536) (hbounds : -65536 ≤ t ∧ t < 65536)
    (hcarry : c = true ↔ ¬ (0 ≤ u ∧ u < 65536)) (hoverflow : v = true ↔ ¬ (-32768 ≤ t ∧ t < 32768)) :
    let r : Result Word := ⟨w, flagsOf c z (w.getLsbD 15) v false, shiftMask⟩
    Exact 2 u t s ([lowByte r.value, highByte r.value], r.apply s) := by
  intro r
  have happly := test_apply_shift (r := r) rfl s
  have hrange : InRange 2 t ↔ -32768 ≤ t ∧ t < 32768 := by simp only [InRange]; omega
  refine ⟨rfl, ?_, ?_, ?_, ?_, ?_, happly .T, happly .I⟩
  · rw [number_word]
    exact hu
  · rw [happly, Bool.eq_iff_iff, decide_eq_true_iff]
    exact (iff_of_eq (congrArg (· = true) (test_flagsOf_C ..))).trans hcarry
  · exact congrArg some ((bit_highByte w).trans ((happly .N).trans (test_flagsOf_N ..)).symm)
  · rw [happly, Bool.eq_iff_iff, decide_eq_true_iff, hrange]
    exact (iff_of_eq (congrArg (· = true) (test_flagsOf_V ..))).trans hoverflow
  · have hsign : (r.apply s).test .S = (w.getLsbD 15 ^^ v) := (happly .S).trans (test_flagsOf_S ..)
    rw [hsign, bit_fifteen, ← Bool.decide_eq_true (b := v)]
    refine xor_decide ?_
    rw [hoverflow]
    omega

theorem test_apply_word_Z {r : Result Word} (hmask : r.mask = shiftMask) (hzero : r.flags.test .Z = (r.value == 0))
    (s : Status) : (r.apply s).test .Z = decide (number [lowByte r.value, highByte r.value] = 0) := by
  rw [test_apply_shift hmask, number_word, if_neg (by decide), hzero, Bool.eq_iff_iff, beq_iff_eq, decide_eq_true_iff,
    ← BitVec.toNat_inj]
  rfl

theorem toNat_constant (K : Fin 64) : (BitVec.ofInt 16 (K : Nat)).toNat = K := by
  have hK := K.isLt
  rw [BitVec.toNat_ofInt]
  omega

section Words

variable (lo hi : Byte) (K : Fin 64) (s : Status)

/-- A word plus a small constant is exact: a carry shows in the top bit alone. -/
theorem exact_addWord :
    let r := addWord (wordOf lo hi) (BitVec.ofInt 16 (K : Nat))
    Exact 2 (number [lo, hi] + 1 * K) (signed [lo, hi] + 1 * K) s ([lowByte r.value, highByte r.value], r.apply s) := by
  have hK := K.isLt
  have hw := (wordOf lo hi).isLt
  have hsigned := signed_pair lo hi
  have hnumber := number_pair lo hi
  have hvalue : (wordOf lo hi + BitVec.ofInt 16 (K : Nat)).toNat = (number [lo, hi] + K) % 65536 := by
    rw [BitVec.toNat_add, toNat_constant, hnumber]
  refine exact_word s (by omega) (by omega) (by omega) ?_ ?_
  · rw [Bool.and_eq_true, Bool.not_eq_true', bit_fifteen, bit_fifteen, decide_eq_false_iff_not, decide_eq_true_iff]
    omega
  · rw [Bool.and_eq_true, Bool.not_eq_true', bit_fifteen, bit_fifteen, decide_eq_false_iff_not, decide_eq_true_iff]
    omega

/-- A word minus a small constant is exact: a borrow shows in the top bit alone. -/
theorem exact_subWord :
    let r := subWord (wordOf lo hi) (BitVec.ofInt 16 (K : Nat))
    Exact 2 (number [lo, hi] + -1 * K) (signed [lo, hi] + -1 * K) s
      ([lowByte r.value, highByte r.value], r.apply s) := by
  have hK := K.isLt
  have hw := (wordOf lo hi).isLt
  have hsigned := signed_pair lo hi
  have hnumber := number_pair lo hi
  have hvalue : (wordOf lo hi - BitVec.ofInt 16 (K : Nat)).toNat = (number [lo, hi] + 65536 - K) % 65536 := by
    rw [BitVec.toNat_sub, toNat_constant, hnumber]
    omega
  refine exact_word s (by omega) (by omega) (by omega) ?_ ?_
  · rw [Bool.and_eq_true, Bool.not_eq_true', bit_fifteen, bit_fifteen, decide_eq_false_iff_not, decide_eq_true_iff]
    omega
  · rw [Bool.and_eq_true, Bool.not_eq_true', bit_fifteen, bit_fifteen, decide_eq_false_iff_not, decide_eq_true_iff]
    omega

end Words

/-! ## Up the chain -/

/-- The bytes of a word and a small constant, and what they leave over, make up the exact result. -/
theorem Exact.carried {σ : Int} (hσ : σ = 1 ∨ σ = -1) {lo hi : Byte} {K : Nat} (hK : K < 64) {t : Int} {s : Status}
    {out : List Byte × Status} (h : Exact 2 (number [lo, hi] + σ * K) t s out) :
    (number out.1 : Int) + 65536 * (σ * (out.2.test .C).toNat) = number [lo, hi] + σ * K := by
  have hvalue : (number out.1 : Int) = (number [lo, hi] + σ * K) % 65536 := h.value
  have hnumber : number [lo, hi] < 256 ^ 2 := number_lt [lo, hi]
  rw [h.carry]
  by_cases hfits : 0 ≤ (number [lo, hi] : Int) + σ * K ∧ (number [lo, hi] : Int) + σ * K < (256 ^ 2 : Nat)
  · simp only [hfits, and_self, not_true_eq_false, decide_false, Bool.toNat_false]
    omega
  · simp only [hfits, not_false_eq_true, decide_true, Bool.toNat_true]
    obtain rfl | rfl := hσ <;> omega

/-- A word and a small constant, and what they leave over carried up a chain, are exact if one operation of the chain
is. The operations are sums if `σ` is `1`, differences if it is `-1`. -/
theorem exact_wordChain {f : Bool → Bool → Byte → Byte → Result Byte} {first : WordOp} {σ : Int}
    (hσ : σ = 1 ∨ σ = -1) (hmask : ∀ c z a b, (f c z a b).mask = arithmeticMask)
    (hf : ∀ c z a b s, Exact 1 (a.toNat + σ * (b.toNat + c.toNat)) (a.toInt + σ * (b.toInt + c.toNat)) s
      ([(f c z a b).value], (f c z a b).apply s))
    {lo hi : Byte} {k : Word} {K : Nat} (hK : K < 64) {s : Status}
    (hfirst : let r := first (wordOf lo hi) k
      Exact 2 (number [lo, hi] + σ * K) (signed [lo, hi] + σ * K) s ([lowByte r.value, highByte r.value], r.apply s))
    (rest : List Byte) :
    Exact (rest.length + 2) (number (lo :: hi :: rest) + σ * K) (signed (lo :: hi :: rest) + σ * K) s
      (wordChain first (fun a b c z => f c z a b) s lo hi rest k) := by
  set r := first (wordOf lo hi) k
  by_cases hne : rest = []
  · subst hne
    exact hfirst
  have hlo := lo.isLt
  have hhi := hi.isLt
  have hcarried := hfirst.carried hσ hK
  set c := (r.apply s).test .C
  simp only [number] at hcarried
  have hupper := exact_chain hσ hmask hf (length_zeros rest).symm hne c ((r.apply s).test .Z) (r.apply s)
  rw [number_zeros, signed_zeros, chain_resumed fun a b c z => f c z a b] at hupper
  have hwhole := (hupper.cons (mt List.length_eq_zero_iff.1 hne) (highByte r.value) rfl rfl).cons
    (Nat.succ_ne_zero _) (lowByte r.value) hfirst.transfer hfirst.interrupt
  have hplain : (number (lo :: hi :: rest) : Int) + σ * K = (lowByte r.value).toNat + 256 * ((highByte r.value).toNat +
      256 * (number rest + σ * ((0 : Nat) + c.toNat))) := by
    rw [number_cons, number_cons]
    obtain rfl | rfl := hσ <;> omega
  have hsigned : signed (lo :: hi :: rest) + σ * K = (lowByte r.value).toNat + 256 * ((highByte r.value).toNat +
      256 * (signed rest + σ * (0 + c.toNat))) := by
    rw [signed_cons lo (List.cons_ne_nil _ _), signed_cons hi hne]
    obtain rfl | rfl := hσ <;> omega
  rw [hplain, hsigned]
  exact hwhole

/-- Behind a difference of a word and a constant and the chain above it, the zero bit is set if all bytes are zero. -/
theorem test_wordChain_sub_Z (lo hi : Byte) (rest : List Byte) (k : Word) (s : Status) :
    let out := wordChain subWord (fun a b c z => sub a b c z) s lo hi rest k
    out.2.test .Z = decide (number out.1 = 0) := by
  intro out
  set r := subWord (wordOf lo hi) k
  have hzero : (r.apply s).test .Z = decide (number [lowByte r.value, highByte r.value] = 0) :=
    test_apply_word_Z rfl (test_flagsOf_Z ..) s
  by_cases hne : rest = []
  · subst hne
    exact hzero
  have hupper := test_chain_sub_Z (length_zeros rest).symm hne ((r.apply s).test .C) ((r.apply s).test .Z) (r.apply s)
  rw [chain_resumed] at hupper
  have hall (a b n : Nat) : n = 0 ∧ a + 256 * (b + 256 * 0) = 0 ↔ a + 256 * (b + 256 * n) = 0 := by omega
  refine (hupper.trans (congrArg (_ && ·) hzero)).trans ?_
  rw [← Bool.decide_and]
  exact decide_eq_decide.2 (hall _ _ _)

section Whole

variable (lo hi : Byte) (rest : List Byte) (K : Fin 64) (s : Status)

theorem wordChain_sub :
    let out := wordChain subWord (fun a b c z => sub a b c z) s lo hi rest (BitVec.ofInt 16 (K : Nat))
    Exact (rest.length + 2) (number (lo :: hi :: rest) - K) (signed (lo :: hi :: rest) - K) s out ∧
      out.2.test .C = decide (number (lo :: hi :: rest) < K) ∧
      out.2.test .Z = decide (number (lo :: hi :: rest) = K) := by
  intro out
  have hK := K.isLt
  have hlt : number (lo :: hi :: rest) < 256 ^ (rest.length + 2) := number_lt _
  have hlarge : 256 ^ 2 ≤ 256 ^ (rest.length + 2) := Nat.pow_le_pow_right (by decide) (Nat.le_add_left ..)
  have hexact := exact_wordChain (.inr rfl) (fun _ _ _ _ => rfl) exact_sub hK (exact_subWord lo hi K s) rest
  rw [Int.neg_one_mul, ← Int.sub_eq_add_neg, ← Int.sub_eq_add_neg] at hexact
  have hcarry : out.2.test .C = decide (number (lo :: hi :: rest) < K) := by
    refine hexact.carry.trans (decide_eq_decide.2 ?_)
    omega
  refine ⟨hexact, hcarry, (test_wordChain_sub_Z ..).trans (decide_eq_decide.2 ?_)⟩
  have hvalue : (number out.1 : Int) = (number (lo :: hi :: rest) - K) % (256 ^ (rest.length + 2) : Nat) := hexact.value
  refine ⟨fun h => ?_, fun h => ?_⟩
  · rw [show number out.1 = 0 from h] at hvalue
    have hdiff := Int.eq_zero_of_dvd_of_natAbs_lt_natAbs (Int.dvd_of_emod_eq_zero hvalue.symm) (by omega)
    omega
  · rw [h, Int.sub_self, Int.zero_emod] at hvalue
    exact Int.natCast_eq_zero.1 hvalue

theorem wordChain_add :
    let out := wordChain addWord (fun a b c _ => add a b c) s lo hi rest (BitVec.ofInt 16 (K : Nat))
    Exact (rest.length + 2) (number (lo :: hi :: rest) + K) (signed (lo :: hi :: rest) + K) s out ∧
      out.2.test .C = decide (256 ^ (rest.length + 2) ≤ number (lo :: hi :: rest) + K) := by
  intro out
  have hexact := exact_wordChain (.inl rfl) (fun _ _ _ _ => rfl) (fun c _ => exact_add c) K.isLt
    (exact_addWord lo hi K s) rest
  rw [Int.one_mul] at hexact
  refine ⟨hexact, hexact.carry.trans (decide_eq_decide.2 ?_)⟩
  omega

end Whole

/-- On two bytes alone the zero bit tells whether the sum is zero. -/
theorem test_addWord_Z (lo hi : Byte) (K : Fin 64) (s : Status) :
    ((addWord (wordOf lo hi) (BitVec.ofInt 16 (K : Nat))).apply s).test .Z =
      decide ((number [lo, hi] + K) % 256 ^ 2 = 0) := by
  have hvalue := (exact_addWord lo hi K s).value
  rw [Int.one_mul, ← Int.natCast_add, ← Int.natCast_emod, Int.natCast_inj] at hvalue
  rw [test_apply_word_Z rfl (test_flagsOf_Z ..) s, hvalue]

/-! ### Constants as two bytes -/

theorem number_constant (K : Fin 64) : number [BitVec.ofNat 8 K, 0] = K := by
  have hK := K.isLt
  show (BitVec.ofNat 8 K).toNat + 256 * (0 + 256 * 0) = K
  rw [BitVec.toNat_ofNat]
  omega

theorem signed_constant (K : Fin 64) : signed [BitVec.ofNat 8 K, 0] = K := by
  have hpair := signed_pair (BitVec.ofNat 8 K) 0
  have hK := K.isLt
  rw [number_constant] at hpair
  omega

end Alu

/-! ## Instructions -/

open Alu

variable {γ : Type}

/-- The instruction works on a pair of registers and a constant by an operation on words. -/
def Mnemonic.CombinesWord (γ : Type) [Console γ] (k : Mnemonic) (f : WordOp) : Prop :=
  ∀ i : Instruction, i.mnemonic = k → (Machine.execute i : Exec γ Control) = Machine.combineWord i f

section Instructions

variable [Console γ]

theorem combinesWord_addWord : Mnemonic.CombinesWord γ .ADIW addWord := fun i h => by rw [Machine.execute, h]

theorem combinesWord_subWord : Mnemonic.CombinesWord γ .SBIW subWord := fun i h => by rw [Machine.execute, h]

/-- Word arithmetic agrees with chains of bytes of any length. `SBIW` on the two lowest bytes and then `SBC` of zero
compute the difference of a number and a constant, `ADIW` and then `ADC` of zero compute the sum; on two bytes alone the
words set the bits that `SUB` and `SBC`, or `ADD` and `ADC`, would set. -/
theorem wordChain_exact (lo hi : Byte) (rest : List Byte) (K : Fin 64) (s : Status) :
    let as := lo :: hi :: rest
    (∃ sbiw sub sbc, Mnemonic.CombinesWord γ .SBIW sbiw ∧ Mnemonic.Combines γ .SUB sub ∧ Mnemonic.Combines γ .SBC sbc ∧
      (let out := wordChain sbiw sbc s lo hi rest (BitVec.ofInt 16 (K : Nat))
      Exact as.length (number as - K) (signed as - K) s out ∧ out.2.test .C = decide (number as < K) ∧
        out.2.test .Z = decide (number as = K)) ∧
      let word := wordChain sbiw sbc s lo hi [] (BitVec.ofInt 16 (K : Nat))
      let bytes := chain sub sbc s [lo, hi] [BitVec.ofNat 8 K, 0]
      word.1 = bytes.1 ∧ ∀ b ∈ [.C, .N, .V, .S], word.2.test b = bytes.2.test b) ∧
    ∃ adiw add adc, Mnemonic.CombinesWord γ .ADIW adiw ∧ Mnemonic.Combines γ .ADD add ∧ Mnemonic.Combines γ .ADC adc ∧
      (let out := wordChain adiw adc s lo hi rest (BitVec.ofInt 16 (K : Nat))
      Exact as.length (number as + K) (signed as + K) s out ∧
        out.2.test .C = decide (256 ^ as.length ≤ number as + K)) ∧
      let word := wordChain adiw adc s lo hi [] (BitVec.ofInt 16 (K : Nat))
      let bytes := chain add adc s [lo, hi] [BitVec.ofNat 8 K, 0]
      word.2.test .Z = decide ((number [lo, hi] + K) % 256 ^ 2 = 0) ∧ word.1 = bytes.1 ∧
        ∀ b ∈ [.C, .N, .V, .S], word.2.test b = bytes.2.test b := by
  intro as
  refine ⟨⟨_, _, _, combinesWord_subWord, combines_difference (by decide), combines_borrow (by decide), ?_, ?_⟩,
    _, _, _, combinesWord_addWord, combines_sum.1, combines_sum.2, ?_, ?_⟩
  · exact wordChain_sub lo hi rest K s
  · have hbytes := exact_chain_sub (show [lo, hi].length = [BitVec.ofNat 8 K, 0].length from rfl)
      (List.cons_ne_nil _ _) s
    rw [number_constant, signed_constant] at hbytes
    exact (wordChain_sub lo hi [] K s).1.unique hbytes
  · exact wordChain_add lo hi rest K s
  · have hbytes := exact_chain_add (show [lo, hi].length = [BitVec.ofNat 8 K, 0].length from rfl)
      (List.cons_ne_nil _ _) s
    rw [number_constant, signed_constant] at hbytes
    exact ⟨test_addWord_Z .., (wordChain_add lo hi [] K s).1.unique hbytes⟩

end Instructions

end Avr

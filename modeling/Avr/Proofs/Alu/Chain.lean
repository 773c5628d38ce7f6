import Avr.Proofs.Alu.Flags
import Avr.Proofs.Opcode.Behaviour

/-!
# Arithmetic on numbers of many bytes

* `number`, `signed` : bytes, the low one first, as a number and as a number in two's complement;
* `chain` : operations on two bytes in a row, the status register handed on;
* `Exact` : the bytes of an exact result and what the status register tells about it; `Exact.cons` puts a lower byte
  in front;
* `exact_chain_add`, `exact_chain_sub` : chains of sums and of differences are exact;
* `Mnemonic.Combines`, `verdict?` : the instructions that make such chains, and the branches behind them;
* `chain_exact` : sums, differences and comparisons of any length.
-/

namespace Avr

namespace Alu

/-! ## Numbers of many bytes -/

/-- Bytes as a number, the low one first. -/
def number : List Byte → Nat
  | [] => 0
  | b :: bs => b.toNat + 256 * number bs

/-- Bytes as a number in two's complement. -/
def signed (bs : List Byte) : Int :=
  if 2 * number bs < 256 ^ bs.length then number bs else (number bs : Int) - (256 ^ bs.length : Nat)

/-- Whether `n` bytes in two's complement can be a number. -/
def InRange (n : Nat) (x : Int) : Prop := -(256 ^ n : Nat) ≤ 2 * x ∧ 2 * x < (256 ^ n : Nat)

instance (n : Nat) (x : Int) : Decidable (InRange n x) := inferInstanceAs (Decidable (_ ∧ _))

theorem number_cons (b : Byte) (bs : List Byte) : number (b :: bs) = b.toNat + 256 * number bs := rfl

theorem number_lt (bs : List Byte) : number bs < 256 ^ bs.length := by
  induction bs with
  | nil => exact Nat.one_pos
  | cons b bs ih =>
    have hb := b.isLt
    rw [number, List.length_cons, Nat.pow_succ]
    omega

theorem number_inj {as bs : List Byte} (hlength : as.length = bs.length) (h : number as = number bs) : as = bs := by
  induction as generalizing bs with
  | nil => exact (List.length_eq_zero_iff.1 hlength.symm).symm
  | cons a as ih =>
    obtain _ | ⟨b, bs⟩ := bs
    · cases hlength
    have ha := a.isLt
    have hb := b.isLt
    rw [number_cons, number_cons] at h
    obtain rfl : a = b := BitVec.eq_of_toNat_eq (by omega)
    rw [ih (Nat.succ.inj hlength) (by omega)]

theorem even_pow {n : Nat} (hn : n ≠ 0) : ∃ h, 256 ^ n = 2 * h := by
  obtain ⟨k, rfl⟩ := Nat.exists_eq_succ_of_ne_zero hn
  exact ⟨256 ^ k * 128, by rw [Nat.pow_succ]; omega⟩

theorem signed_singleton (b : Byte) : signed [b] = b.toInt := by
  have hb := toInt_byte b
  simp only [signed, number, List.length_singleton, Nat.pow_one]
  split <;> omega

theorem signed_cons (b : Byte) {bs : List Byte} (hbs : bs ≠ []) : signed (b :: bs) = b.toNat + 256 * signed bs := by
  have hb := b.isLt
  obtain ⟨h, hpow⟩ := even_pow (mt List.length_eq_zero_iff.1 hbs)
  simp only [signed, number, List.length_cons, Nat.pow_succ, hpow]
  split <;> split <;> omega

/-- A byte in front of a number does not change whether the rest has bytes enough. -/
theorem inRange_cons {n : Nat} (hn : n ≠ 0) (v : Byte) (x : Int) : InRange (n + 1) (v.toNat + 256 * x) ↔ InRange n x := by
  have hv := v.isLt
  obtain ⟨h, hpow⟩ := even_pow hn
  simp only [InRange, Nat.pow_succ, hpow]
  omega

/-- A byte in front of a number stays when the number is reduced. -/
theorem emod_cons {p : Int} (hp : 0 < p) (v : Byte) (u : Int) :
    (v.toNat + 256 * u) % (256 * p) = v.toNat + 256 * (u % p) := by
  have hv := v.isLt
  have hnonneg := Int.emod_nonneg u (show p ≠ 0 by omega)
  have hlt := Int.emod_lt_of_pos u hp
  have hsplit : v.toNat + 256 * u = v.toNat + 256 * (u % p) + 256 * p * (u / p) := by
    rw [Int.mul_assoc, Int.add_assoc, ← Int.mul_add, Int.emod_add_mul_ediv]
  rw [hsplit, Int.add_mul_emod_self_left]
  exact Int.emod_eq_of_lt (by omega) (by omega)

/-! ## Exact results -/

abbrev ByteOp := Byte → Byte → Bool → Bool → Result Byte

/-- One operation on the lowest bytes and another one on all others, each given the status register that the one before
leaves: the bytes computed, and the status register in the end. -/
def chain (first next : ByteOp) (s : Status) : List Byte → List Byte → List Byte × Status
  | a :: as, b :: bs =>
    let r := first a b (s.test .C) (s.test .Z)
    let rest := chain next next (r.apply s) as bs
    (r.value :: rest.1, rest.2)
  | _, _ => ([], s)

/-- The outcome of `n` bytes has what fits of an exact result: `u`, computed from the bytes as a plain number, and `t`,
computed from them in two's complement. The status register tells what does not fit. -/
structure Exact (n : Nat) (u t : Int) (s : Status) (out : List Byte × Status) : Prop where
  length : out.1.length = n
  value : (number out.1 : Int) = u % (256 ^ n : Nat)
  carry : out.2.test .C = decide (¬ (0 ≤ u ∧ u < (256 ^ n : Nat)))
  negative : out.1.getLast?.map (bit · 7) = some (out.2.test .N)
  overflow : out.2.test .V = decide (¬ InRange n t)
  sign : out.2.test .S = decide (t < 0)
  transfer : out.2.test .T = s.test .T
  interrupt : out.2.test .I = s.test .I

/-- A byte in front is the low byte of an exact result; what it leaves over counts `256` times. -/
theorem Exact.cons {n : Nat} {u t : Int} {s s' : Status} {out : List Byte × Status} (h : Exact n u t s' out)
    (hn : n ≠ 0) (v : Byte) (ht : s'.test .T = s.test .T) (hi : s'.test .I = s.test .I) :
    Exact (n + 1) (v.toNat + 256 * u) (v.toNat + 256 * t) s (v :: out.1, out.2) := by
  have hv := v.isLt
  have hpow : ((256 ^ (n + 1) : Nat) : Int) = 256 * (256 ^ n : Nat) := by rw [Nat.pow_succ]; omega
  have hne : out.1 ≠ [] := mt (congrArg List.length) (by rw [h.length]; exact hn)
  refine ⟨?_, ?_, ?_, ?_, ?_, ?_, h.transfer.trans ht, h.interrupt.trans hi⟩
  · rw [List.length_cons, h.length]
  · have hpos : (0 : Int) < (256 ^ n : Nat) := Int.natCast_pos.2 (Nat.pow_pos (by decide))
    rw [hpow, emod_cons hpos, ← h.value, number]
    omega
  · rw [h.carry, hpow]
    congr 1
    rw [eq_iff_iff]
    omega
  · rw [List.getLast?_cons_of_ne_nil hne]
    exact h.negative
  · rw [h.overflow]
    congr 1
    rw [inRange_cons hn]
  · rw [h.sign]
    congr 1
    rw [eq_iff_iff]
    omega

theorem exact_single {r : Result Byte} {u t : Int} (s : Status) (hmask : r.mask = arithmeticMask)
    (hvalue : (r.value.toNat : Int) = u % 256) (hcarry : r.flags.test .C = decide (¬ (0 ≤ u ∧ u < 256)))
    (hnegative : r.flags.test .N = bit r.value 7) (hoverflow : r.flags.test .V = decide (¬ (-128 ≤ t ∧ t < 128)))
    (hsign : r.flags.test .S = decide (t < 0)) : Exact 1 u t s ([r.value], r.apply s) := by
  have happly := test_apply_arithmetic hmask s
  have hrange : InRange 1 t ↔ -128 ≤ t ∧ t < 128 := by simp only [InRange]; omega
  refine ⟨rfl, ?_, ?_, ?_, ?_, ?_, happly .T, happly .I⟩
  · exact hvalue
  · exact (happly .C).trans hcarry
  · exact congrArg some (hnegative.symm.trans (happly .N).symm)
  · rw [happly]
    simp only [hrange]
    exact hoverflow
  · exact (happly .S).trans hsign

/-- One byte and the carry make the exact sum (`σ` is `1`) or difference (`σ` is `-1`) of a byte and one more. -/
theorem Exact.value_add_carry {a b σ t : Int} {s s' : Status} {v : Byte} (h : Exact 1 (a + σ * b) t s ([v], s'))
    (hσ : σ = 1 ∨ σ = -1) (ha : 0 ≤ a ∧ a < 256) (hb : 0 ≤ b ∧ b ≤ 256) :
    (v.toNat : Int) + 256 * (σ * (s'.test .C).toNat) = a + σ * b := by
  have hvalue : (v.toNat : Int) = (a + σ * b) % 256 := h.value
  rw [h.carry]
  by_cases hfits : 0 ≤ a + σ * b ∧ a + σ * b < (256 ^ 1 : Nat)
  · simp only [hfits, and_self, not_true_eq_false, decide_false, Bool.toNat_false]
    omega
  · simp only [hfits, not_false_eq_true, decide_true, Bool.toNat_true]
    obtain rfl | rfl := hσ <;> omega

/-! ## Chains of sums and of differences -/

/-- A chain is exact if one operation is. The operations are sums if `σ` is `1`, differences if it is `-1`; the first
one is given the carry `c` and the zero bit `z`. -/
theorem exact_chain {f : Bool → Bool → Byte → Byte → Result Byte} {σ : Int} (hσ : σ = 1 ∨ σ = -1)
    (hmask : ∀ c z a b, (f c z a b).mask = arithmeticMask)
    (hf : ∀ c z a b s, Exact 1 (a.toNat + σ * (b.toNat + c.toNat)) (a.toInt + σ * (b.toInt + c.toNat)) s
      ([(f c z a b).value], (f c z a b).apply s))
    {as bs : List Byte} (hlength : as.length = bs.length) (hne : as ≠ []) (c z : Bool) (s : Status) :
    Exact as.length (number as + σ * (number bs + c.toNat)) (signed as + σ * (signed bs + c.toNat)) s
      (chain (fun a b _ _ => f c z a b) (fun a b c z => f c z a b) s as bs) := by
  induction as generalizing bs c z s with
  | nil => exact absurd rfl hne
  | cons a as ih =>
    obtain _ | ⟨b, bs⟩ := bs
    · cases hlength
    have hone := hf c z a b s
    obtain _ | ⟨a', as⟩ := as
    · obtain rfl : bs = [] := List.length_eq_zero_iff.1 (Nat.succ.inj hlength).symm
      rw [signed_singleton, signed_singleton]
      exact hone
    obtain _ | ⟨b', bs⟩ := bs
    · cases hlength
    have happly := test_apply_arithmetic (hmask c z a b) s
    have hrest := ih (Nat.succ.inj hlength) (List.cons_ne_nil _ _) (((f c z a b).apply s).test .C)
      (((f c z a b).apply s).test .Z) ((f c z a b).apply s)
    have h := hrest.cons (Nat.succ_ne_zero _) (f c z a b).value (happly .T) (happly .I)
    have hcarry : ((f c z a b).value.toNat : Int) + 256 * (σ * (((f c z a b).apply s).test .C).toNat) =
        a.toNat + σ * (b.toNat + c.toNat) := by
      have hc := c.toNat_le
      exact hone.value_add_carry hσ (by omega) (by omega)
    have hplain : (number (a :: a' :: as) : Int) + σ * (number (b :: b' :: bs) + c.toNat) =
        (f c z a b).value.toNat + 256 * (number (a' :: as) +
          σ * (number (b' :: bs) + (((f c z a b).apply s).test .C).toNat)) := by
      rw [number_cons a, number_cons b]
      obtain rfl | rfl := hσ <;> omega
    have hsigned : signed (a :: a' :: as) + σ * (signed (b :: b' :: bs) + c.toNat) =
        (f c z a b).value.toNat + 256 * (signed (a' :: as) +
          σ * (signed (b' :: bs) + (((f c z a b).apply s).test .C).toNat)) := by
      rw [signed_cons a (List.cons_ne_nil _ _), signed_cons b (List.cons_ne_nil _ _)]
      obtain rfl | rfl := hσ <;> omega
    rw [hplain, hsigned]
    exact h

theorem exact_add (c : Bool) (a b : Byte) (s : Status) :
    Exact 1 (a.toNat + 1 * (b.toNat + c.toNat)) (a.toInt + 1 * (b.toInt + c.toNat)) s
      ([(add a b c).value], (add a b c).apply s) := by
  have hsum : exactSum a b c = a.toInt + 1 * (b.toInt + c.toNat) := by rw [exactSum]; omega
  refine hsum ▸ exact_single s rfl ?_ ?_ (test_flagsOf_N ..) (test_add_V a b c) (test_add_S a b c)
  · rw [toNat_add_value]
    omega
  · rw [test_add_C]
    congr 1
    rw [eq_iff_iff]
    omega

theorem exact_sub (c z : Bool) (a b : Byte) (s : Status) :
    Exact 1 (a.toNat + -1 * (b.toNat + c.toNat)) (a.toInt + -1 * (b.toInt + c.toNat)) s
      ([(sub a b c z).value], (sub a b c z).apply s) := by
  have hdifference : exactDifference a b c = a.toInt + -1 * (b.toInt + c.toNat) := by rw [exactDifference]; omega
  have hc := c.toNat_le
  have hb := b.isLt
  have ha := a.isLt
  refine hdifference ▸ exact_single s rfl ?_ ?_ (test_flagsOf_N ..) (test_sub_V a b c z) (test_sub_S a b c z)
  · rw [toNat_sub_value]
    omega
  · rw [test_sub_C]
    congr 1
    rw [eq_iff_iff]
    omega

theorem exact_chain_add {as bs : List Byte} (hlength : as.length = bs.length) (hne : as ≠ []) (s : Status) :
    Exact as.length (number as + number bs) (signed as + signed bs) s
      (chain (fun a b _ _ => add a b false) (fun a b c _ => add a b c) s as bs) := by
  have h := exact_chain (.inl rfl) (fun _ _ _ _ => rfl) (fun c _ => exact_add c) hlength hne false false s
  simpa only [Bool.toNat_false, Int.one_mul, Nat.cast_zero, Int.add_zero] using h

theorem exact_chain_sub {as bs : List Byte} (hlength : as.length = bs.length) (hne : as ≠ []) (s : Status) :
    Exact as.length (number as - number bs) (signed as - signed bs) s
      (chain (fun a b _ _ => sub a b false true) (fun a b c z => sub a b c z) s as bs) := by
  have h := exact_chain (.inr rfl) (fun _ _ _ _ => rfl) exact_sub hlength hne false true s
  simpa only [Bool.toNat_false, Int.neg_one_mul, Nat.cast_zero, Int.add_zero, ← Int.sub_eq_add_neg] using h

/-- Behind a chain of differences the zero bit is set if all its bytes are zero and the bit was set before. -/
theorem test_chain_sub_Z {as bs : List Byte} (hlength : as.length = bs.length) (hne : as ≠ []) (c z : Bool) (s : Status) :
    let out := chain (fun a b _ _ => sub a b c z) (fun a b c z => sub a b c z) s as bs
    out.2.test .Z = (decide (number out.1 = 0) && z) := by
  induction as generalizing bs c z s with
  | nil => exact absurd rfl hne
  | cons a as ih =>
    obtain _ | ⟨b, bs⟩ := bs
    · cases hlength
    have hzero : ((sub a b c z).apply s).test .Z = (decide ((sub a b c z).value.toNat = 0) && z) :=
      (test_apply_arithmetic rfl s .Z).trans (test_sub_Z a b c z)
    obtain _ | ⟨a', as⟩ := as
    · obtain rfl : bs = [] := List.length_eq_zero_iff.1 (Nat.succ.inj hlength).symm
      exact hzero
    obtain _ | ⟨b', bs⟩ := bs
    · cases hlength
    have h := ih (Nat.succ.inj hlength) (List.cons_ne_nil _ _) (((sub a b c z).apply s).test .C)
      (((sub a b c z).apply s).test .Z) ((sub a b c z).apply s)
    have hall (v n : Nat) : n = 0 ∧ v = 0 ↔ v + 256 * n = 0 := by omega
    refine (h.trans (congrArg (_ && ·) hzero)).trans ?_
    rw [← Bool.and_assoc, ← Bool.decide_and]
    exact congrArg (· && z) (decide_eq_decide.2 (hall _ _))

end Alu

/-! ## Instructions -/

open Alu

variable {γ : Type}

/-- The instruction works on two registers by an operation on bytes. `CP` and `CPC` only set the status bits, the others
keep the result. -/
def Mnemonic.Combines (γ : Type) [Console γ] (k : Mnemonic) (f : ByteOp) : Prop :=
  ∀ i : Instruction, i.mnemonic = k →
    (Machine.execute i : Exec γ Control) = if k ∈ [.CP, .CPC] then Machine.compare i f else Machine.combine i f

/-- Whether a branch should be taken behind a comparison of two numbers. -/
def Mnemonic.verdict? (as bs : List Byte) : Mnemonic → Option Bool
  | .BRLO => some (decide (number as < number bs))
  | .BRSH => some (decide (number bs ≤ number as))
  | .BRLT => some (decide (signed as < signed bs))
  | .BRGE => some (decide (signed bs ≤ signed as))
  | .BREQ => some (decide (as = bs))
  | .BRNE => some (decide (as ≠ bs))
  | _ => none

section Instructions

variable [Console γ]

theorem combines_sum : Mnemonic.Combines γ .ADD (fun d r _ _ => add d r false) ∧
    Mnemonic.Combines γ .ADC (fun d r c _ => add d r c) := by
  refine ⟨fun i h => ?_, fun i h => ?_⟩ <;> rw [if_neg (by decide), Machine.execute, h]

theorem combines_difference {k : Mnemonic} (h : k ∈ [.SUB, .CP]) :
    k.Combines γ (fun d r _ _ => sub d r false true) := by
  intro i hi
  simp only [List.mem_cons, List.not_mem_nil, or_false] at h
  obtain rfl | rfl := h
  · rw [if_neg (by decide), Machine.execute, hi]
  · rw [if_pos (by decide), Machine.execute, hi]

theorem combines_borrow {k : Mnemonic} (h : k ∈ [.SBC, .CPC]) :
    k.Combines γ (fun d r c z => sub d r c z) := by
  intro i hi
  simp only [List.mem_cons, List.not_mem_nil, or_false] at h
  obtain rfl | rfl := h
  · rw [if_neg (by decide), Machine.execute, hi]
  · rw [if_pos (by decide), Machine.execute, hi]

/-- Branches go by how two numbers compare. -/
def Machine.Compares (m : Machine γ) (as bs : List Byte) : Prop :=
  ∀ k taken, Mnemonic.verdict? as bs k = some taken → ∀ (i : Instruction) (d : Int), i.mnemonic = k →
    i.operands = [.imm d] → (Machine.execute i : Exec γ Control).run m = (Machine.branch taken d : Exec γ Control).run m

theorem Machine.compares {m : Machine γ} {as bs : List Byte} (hcarry : m.flag .C = decide (number as < number bs))
    (hzero : m.flag .Z = decide (as = bs)) (hsign : m.flag .S = decide (signed as < signed bs)) :
    m.Compares as bs := by
  rintro k taken hk ⟨mn, ops, o, l⟩ d rfl rfl
  have hbranch {b : StatusBit} {v : Bool} (hb : mn.branchCondition? = some (b, v)) (htaken : (m.flag b == v) = taken) :
      (Machine.execute ⟨mn, [.imm d], o, l⟩ : Exec γ Control).run m = (Machine.branch taken d : Exec γ Control).run m := by
    rw [Machine.execute_named hb, ← htaken]
    rfl
  cases mn with
  | BRLO =>
    cases hk
    exact hbranch rfl (by simp [hcarry])
  | BRSH =>
    cases hk
    exact hbranch rfl (by rw [hcarry, beq_false, ← decide_not, decide_eq_decide, Nat.not_lt])
  | BRLT =>
    cases hk
    exact hbranch rfl (by simp [hsign])
  | BRGE =>
    cases hk
    exact hbranch rfl (by rw [hsign, beq_false, ← decide_not, decide_eq_decide, Int.not_lt])
  | BREQ =>
    cases hk
    exact hbranch rfl (by simp [hzero])
  | BRNE =>
    cases hk
    exact hbranch rfl (by simp [hzero])
  | _ => cases hk

/-- Arithmetic on numbers of any length is exact. `ADD` and then `ADC` compute the sum; `SUB` or `CP` and then `SBC` or
`CPC` compute the difference, and branches behind them go by how the numbers compare. -/
theorem chain_exact {as bs : List Byte} (hlength : as.length = bs.length) (hne : as ≠ []) (s : Status) :
    (∃ add adc, Mnemonic.Combines γ .ADD add ∧ Mnemonic.Combines γ .ADC adc ∧
      let out := chain add adc s as bs
      Exact as.length (number as + number bs) (signed as + signed bs) s out ∧
        out.2.test .C = decide (256 ^ as.length ≤ number as + number bs)) ∧
    ∀ k ∈ [.SUB, .CP], ∀ k' ∈ [.SBC, .CPC], ∃ sub sbc, Mnemonic.Combines γ k sub ∧ Mnemonic.Combines γ k' sbc ∧
      let out := chain sub sbc s as bs
      Exact as.length (number as - number bs) (signed as - signed bs) s out ∧
        out.2.test .C = decide (number as < number bs) ∧ out.2.test .Z = decide (as = bs) ∧
        out.2.test .S = decide (signed as < signed bs) ∧ ∀ m : Machine γ, m.sreg = out.2 → m.Compares as bs := by
  have hltA := number_lt as
  have hltB := number_lt bs
  rw [← hlength] at hltB
  refine ⟨⟨_, _, combines_sum.1, combines_sum.2, ?_⟩, fun k hk k' hk' =>
    ⟨_, _, combines_difference hk, combines_borrow hk', ?_⟩⟩
  · intro out
    have hexact := exact_chain_add hlength hne s
    refine ⟨hexact, hexact.carry.trans (decide_eq_decide.2 ?_)⟩
    omega
  · intro out
    have hexact := exact_chain_sub hlength hne s
    have hcarry : out.2.test .C = decide (number as < number bs) := by
      refine hexact.carry.trans (decide_eq_decide.2 ?_)
      omega
    have hzero : out.2.test .Z = decide (as = bs) := by
      have hsame : number out.1 = 0 ↔ as = bs := by
        have hvalue := hexact.value
        refine ⟨fun h => number_inj hlength ?_, fun h => ?_⟩
        · rw [h] at hvalue
          have hdvd := Int.dvd_of_emod_eq_zero hvalue.symm
          have hdiff := Int.eq_zero_of_dvd_of_natAbs_lt_natAbs hdvd (by omega)
          omega
        · have hdiff : (number as - number bs : Int) = 0 := by rw [h, Int.sub_self]
          rw [hdiff, Int.zero_emod] at hvalue
          exact Int.natCast_eq_zero.1 hvalue
      refine (test_chain_sub_Z hlength hne false true s).trans ?_
      rw [Bool.and_true]
      exact decide_eq_decide.2 hsame
    have hsign : out.2.test .S = decide (signed as < signed bs) := by
      refine hexact.sign.trans (decide_eq_decide.2 ?_)
      omega
    refine ⟨hexact, hcarry, hzero, hsign, fun m hm => Machine.compares ?_ ?_ ?_⟩
    · rw [Machine.flag, hm, hcarry]
    · rw [Machine.flag, hm, hzero]
    · rw [Machine.flag, hm, hsign]

/-- The lowest number of two bytes less one: the difference is the highest one, which only the sign bit tells. -/
theorem chain_exact_borrow : ([0x00, 0x80] : List Byte).length = ([0x01, 0x00] : List Byte).length ∧
    ([0x00, 0x80] : List Byte) ≠ [] ∧ ∃ sub sbc, Mnemonic.Combines (Array Byte) .CP sub ∧
      Mnemonic.Combines (Array Byte) .CPC sbc ∧
      let out := chain sub sbc 0 [0x00, 0x80] [0x01, 0x00]
      number out.1 = 0x7FFF ∧ out.2.test .C = false ∧ out.2.test .V = true ∧ out.2.test .S = true := by
  refine ⟨rfl, by decide, ?_⟩
  obtain ⟨sub, sbc, hsub, hsbc, hexact, hcarry, -, hsign, -⟩ :=
    (chain_exact (γ := Array Byte) (show ([0x00, 0x80] : List Byte).length = ([0x01, 0x00] : List Byte).length from rfl)
      (by decide) 0).2 .CP (by decide) .CPC (by decide)
  refine ⟨sub, sbc, hsub, hsbc, ?_, hcarry.trans (by decide), hexact.overflow.trans (by decide),
    hsign.trans (by decide)⟩
  exact Int.natCast_inj.1 (hexact.value.trans (by decide))

end Instructions

end Avr

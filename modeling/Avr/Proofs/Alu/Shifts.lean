import Avr.Proofs.Alu.Chain

/-!
# Shifts of numbers of many bytes

* `shifts` : operations on one byte in a row, the status register handed on; `shiftsDown` starts at the highest byte;
* `chain_self` : adding a number to itself is a row of shifts to the left;
* `Halves` : a number halved, its lowest bit in the carry; `Halves.cons` puts a lower byte in front;
* `Mnemonic.Modifies` : the instructions that make such rows;
* `shifts_exact` : a row of shifts doubles or halves a number of any length.
-/

namespace Avr

namespace Alu

/-! ## Rows of shifts -/

abbrev ShiftOp := Byte → Bool → Result Byte

/-- One operation on the first byte and another one on all others, each given the status register that the one before
leaves: the bytes computed, and the status register in the end. -/
def shifts (first next : ShiftOp) (s : Status) : List Byte → List Byte × Status
  | [] => ([], s)
  | a :: as =>
    let r := first a (s.test .C)
    let rest := shifts next next (r.apply s) as
    (r.value :: rest.1, rest.2)

/-- The same from the highest byte downwards. The bytes are written low first here too. -/
def shiftsDown (first next : ShiftOp) (s : Status) (as : List Byte) : List Byte × Status :=
  let out := shifts first next s as.reverse
  (out.1.reverse, out.2)

theorem shifts_concat (first next : ShiftOp) (s : Status) {as : List Byte} (hne : as ≠ []) (b : Byte) :
    let out := shifts first next s as
    let r := next b (out.2.test .C)
    shifts first next s (as ++ [b]) = (out.1 ++ [r.value], r.apply out.2) := by
  induction as generalizing first s with
  | nil => exact absurd rfl hne
  | cons a as ih =>
    obtain _ | ⟨a', as⟩ := as
    · rfl
    have h := ih next ((first a (s.test .C)).apply s) (List.cons_ne_nil _ _)
    simp only [List.cons_append, shifts, Prod.mk.injEq, List.cons.injEq, true_and] at h ⊢
    exact h

theorem shiftsDown_cons (first next : ShiftOp) (s : Status) (a : Byte) {as : List Byte} (hne : as ≠ []) :
    let out := shiftsDown first next s as
    let r := next a (out.2.test .C)
    shiftsDown first next s (a :: as) = (r.value :: out.1, r.apply out.2) := by
  have h := shifts_concat first next s (mt List.reverse_eq_nil_iff.1 hne) a
  simp only [shiftsDown, List.reverse_cons, h, List.reverse_append, List.reverse_nil, List.nil_append,
    List.singleton_append]

/-! ## To the left -/

theorem chain_self (first next : Byte → Byte → Bool → Result Byte) (s : Status) (as : List Byte) :
    chain (fun a b c _ => first a b c) (fun a b c _ => next a b c) s as as =
      shifts (fun d c => first d d c) (fun d c => next d d c) s as := by
  induction as generalizing first s with
  | nil => rfl
  | cons a as ih => simp only [chain, shifts, ih]

/-- The top bit of a number tells whether its double has one byte more. -/
theorem top_bit {as : List Byte} (hne : as ≠ []) :
    as.getLast?.map (bit · 7) = some (decide (256 ^ as.length ≤ 2 * number as)) := by
  induction as with
  | nil => exact absurd rfl hne
  | cons a as ih =>
    have ha := a.isLt
    obtain _ | ⟨a', as⟩ := as
    · have htop : 128 ≤ a.toNat ↔ 256 ^ 1 ≤ 2 * number [a] := by simp only [number]; omega
      exact congrArg some ((bit_seven a).trans (decide_eq_decide.2 htop))
    obtain ⟨h, hpow⟩ := even_pow (show (a' :: as).length ≠ 0 from Nat.succ_ne_zero _)
    rw [List.getLast?_cons_of_ne_nil (List.cons_ne_nil _ _), ih (List.cons_ne_nil _ _)]
    have hlonger : 256 ^ (a :: a' :: as).length = 2 * h * 256 := by rw [List.length_cons, Nat.pow_succ, hpow]
    refine congrArg some (decide_eq_decide.2 ?_)
    rw [hlonger, hpow, number_cons a]
    omega

/-- A row of shifts to the left makes the exact double, and the former top bit is the carry. -/
theorem exact_shifts {as : List Byte} (hne : as ≠ []) (s : Status) :
    let out := shifts (fun d _ => add d d false) (fun d c => add d d c) s as
    Exact as.length (2 * number as) (2 * signed as) s out ∧ as.getLast?.map (bit · 7) = some (out.2.test .C) := by
  intro out
  have hchain : chain (fun a b _ _ => add a b false) (fun a b c _ => add a b c) s as as = out :=
    chain_self (fun a b _ => add a b false) add s as
  have hdouble : Exact as.length (2 * number as) (2 * signed as) s out := by
    rw [Int.two_mul, Int.two_mul, ← hchain]
    exact exact_chain_add rfl hne s
  refine ⟨hdouble, ?_⟩
  rw [hdouble.carry, top_bit hne]
  refine congrArg some (decide_eq_decide.2 ?_)
  omega

/-! ## To the right -/

section Right

variable (d : Byte) (top : Bool)

theorem toNat_shiftRight : (shiftRight d top).value.toNat = d.toNat / 2 + 128 * top.toNat := by
  have hd : d.toNat / 2 < 2 ^ 7 := by have := d.isLt; omega
  have hshift : (d >>> 1).toNat = d.toNat / 2 := by rw [BitVec.toNat_ushiftRight, Nat.shiftRight_eq_div_pow]
  show (d >>> 1 ||| carryByte top <<< 7).toNat = _
  rw [BitVec.toNat_or, hshift]
  obtain _ | _ := top
  · exact Nat.or_zero _
  · show d.toNat / 2 ||| 2 ^ 7 * 1 = d.toNat / 2 + 2 ^ 7 * 1
    rw [Nat.or_comm, ← Nat.two_pow_add_eq_or_of_lt hd, Nat.add_comm]

theorem test_shiftRight_C : (shiftRight d top).flags.test .C = bit d 0 := test_flagsOf_C ..

theorem toNat_bit_zero : (bit d 0).toNat = d.toNat % 2 := by
  rw [bit, ← BitVec.testBit_toNat, Nat.testBit_zero]
  obtain h | h := Nat.mod_two_eq_zero_or_one d.toNat <;> rw [h] <;> rfl

theorem test_apply_shiftRight (s : Status) :
    ((shiftRight d top).apply s).test .C = bit d 0 ∧
      ∀ b ∈ [.T, .I, .H], ((shiftRight d top).apply s).test b = s.test b := by
  have hmask : (shiftRight d top).mask = shiftMask := rfl
  refine ⟨?_, fun b hb => ?_⟩
  · have hwritten : shiftMask.test .C = true := by decide
    rw [Result.test_apply, hmask, hwritten]
    exact test_shiftRight_C d top
  · have hunwritten : shiftMask.test b = false := by
      simp only [List.mem_cons, List.not_mem_nil, or_false] at hb
      obtain rfl | rfl | rfl := hb <;> decide
    rw [Result.test_apply, hmask, hunwritten]
    rfl

end Right

/-- How lists of bytes are read as numbers: a byte in front of others is the low one. -/
def LowFirst (v : List Byte → Int) : Prop := ∀ b bs, bs ≠ [] → v (b :: bs) = b.toNat + 256 * v bs

theorem lowFirst_number : LowFirst fun bs => (number bs : Int) := fun b bs _ => by
  show (number (b :: bs) : Int) = b.toNat + 256 * number bs
  rw [number_cons]
  omega

theorem lowFirst_signed : LowFirst signed := fun b _ hbs => signed_cons b hbs

/-- The outcome is a number halved and rounded down. The carry is its lowest bit, and three bits of the status register
are kept. -/
structure Halves (v : List Byte → Int) (s : Status) (as : List Byte) (out : List Byte × Status) : Prop where
  length : out.1.length = as.length
  value : v out.1 = v as / 2
  carry : ((out.2.test .C).toNat : Int) = v as % 2
  lowest : as.head?.map (bit · 0) = some (out.2.test .C)
  kept : ∀ b ∈ [.T, .I, .H], out.2.test b = s.test b

theorem halves_singleton {v : List Byte → Int} {a : Byte} {top : Bool} (s : Status)
    (hvalue : v [(shiftRight a top).value] = v [a] / 2) (hparity : v [a] % 2 = a.toNat % 2) :
    Halves v s [a] ([(shiftRight a top).value], (shiftRight a top).apply s) := by
  obtain ⟨hcarry, hkept⟩ := test_apply_shiftRight a top s
  refine ⟨rfl, hvalue, ?_, congrArg some hcarry.symm, hkept⟩
  have hbit := toNat_bit_zero a
  rw [hcarry]
  omega

/-- A byte in front of a halved number gets the carry as its top bit. -/
theorem Halves.cons {v : List Byte → Int} (hv : LowFirst v) {s : Status} {as : List Byte} {out : List Byte × Status}
    (h : Halves v s as out) (hne : as ≠ []) (a : Byte) :
    Halves v s (a :: as) ((ror a (out.2.test .C)).value :: out.1, (ror a (out.2.test .C)).apply out.2) := by
  obtain ⟨hcarry, hkept⟩ := test_apply_shiftRight a (out.2.test .C) out.2
  have hout : out.1 ≠ [] := mt (congrArg List.length) (by rw [h.length]; exact mt List.length_eq_zero_iff.1 hne)
  have hbit := toNat_bit_zero a
  have hbyte : (ror a (out.2.test .C)).value.toNat = a.toNat / 2 + 128 * (out.2.test .C).toNat :=
    toNat_shiftRight a (out.2.test .C)
  have hrest := h.value
  have hover := h.carry
  refine ⟨congrArg (· + 1) h.length, ?_, ?_, congrArg some hcarry.symm, fun b hb => ?_⟩
  · rw [hv _ _ hout, hv _ _ hne]
    omega
  · rw [ror, hcarry, hv _ _ hne]
    omega
  · exact (hkept b hb).trans (h.kept b hb)

/-- A row of shifts to the right halves a number if its first step halves the highest byte. -/
theorem halves_shiftsDown {v : List Byte → Int} (hv : LowFirst v) {first : ShiftOp} {s : Status}
    (hfirst : ∀ a, Halves v s [a] (shiftsDown first ror s [a])) {as : List Byte} (hne : as ≠ []) :
    Halves v s as (shiftsDown first ror s as) := by
  induction as with
  | nil => exact absurd rfl hne
  | cons a as ih =>
    obtain _ | ⟨a', as⟩ := as
    · exact hfirst a
    rw [shiftsDown_cons _ _ _ _ (List.cons_ne_nil _ _)]
    exact (ih (List.cons_ne_nil _ _)).cons hv (List.cons_ne_nil _ _) a

theorem halves_lsr {as : List Byte} (hne : as ≠ []) (s : Status) :
    Halves (fun bs => number bs) s as (shiftsDown (fun d _ => lsr d) ror s as) := by
  refine halves_shiftsDown lowFirst_number (fun a => ?_) hne
  show Halves _ s [a] ([(shiftRight a false).value], (shiftRight a false).apply s)
  apply halves_singleton
  · have hvalue := toNat_shiftRight a false
    simp only [number, Bool.toNat_false] at hvalue ⊢
    omega
  · simp only [number]
    omega

theorem halves_asr {as : List Byte} (hne : as ≠ []) (s : Status) :
    Halves signed s as (shiftsDown (fun d _ => asr d) ror s as) := by
  refine halves_shiftsDown lowFirst_signed (fun a => ?_) hne
  show Halves _ s [a] ([(shiftRight a (bit a 7)).value], (shiftRight a (bit a 7)).apply s)
  apply halves_singleton
  · have hvalue := toNat_shiftRight a (bit a 7)
    have hnew := toInt_byte (shiftRight a (bit a 7)).value
    have hold := toInt_byte a
    rw [bit_seven] at hvalue hnew ⊢
    rw [signed_singleton, signed_singleton]
    by_cases hsign : 128 ≤ a.toNat
    · simp only [hsign, decide_true, Bool.toNat_true] at hvalue hnew ⊢
      omega
    · simp only [hsign, decide_false, Bool.toNat_false] at hvalue hnew ⊢
      omega
  · have hold := toInt_byte a
    rw [signed_singleton]
    omega

end Alu

/-! ## Instructions -/

open Alu

variable {γ : Type}

/-- The instruction works on one register by an operation on bytes. -/
def Mnemonic.Modifies (γ : Type) [Console γ] (k : Mnemonic) (f : ShiftOp) : Prop :=
  ∀ i : Instruction, i.mnemonic = k → (Machine.execute i : Exec γ Control) = Machine.modifyRegister i f

section Instructions

variable [Console γ]

theorem modifies_left : Mnemonic.Modifies γ .LSL (fun d _ => add d d false) ∧
    Mnemonic.Modifies γ .ROL (fun d c => add d d c) := by
  refine ⟨fun i h => ?_, fun i h => ?_⟩ <;> rw [Machine.execute, h]

theorem modifies_right : Mnemonic.Modifies γ .LSR (fun d _ => lsr d) ∧ Mnemonic.Modifies γ .ASR (fun d _ => asr d) ∧
    Mnemonic.Modifies γ .ROR ror := by
  refine ⟨fun i h => ?_, fun i h => ?_, fun i h => ?_⟩ <;> rw [Machine.execute, h]

/-- Shifts of numbers of any length are exact. `LSL` and then `ROL` upwards double a number; `LSR` and then `ROR`
downwards halve it, and `ASR` and then `ROR` halve it in two's complement, both rounded down. The bit shifted out is the
carry. -/
theorem shifts_exact {as : List Byte} (hne : as ≠ []) (s : Status) :
    (∃ lsl rol, Mnemonic.Modifies γ .LSL lsl ∧ Mnemonic.Modifies γ .ROL rol ∧
      let out := shifts lsl rol s as
      Exact as.length (2 * number as) (2 * signed as) s out ∧
        as.getLast?.map (bit · 7) = some (out.2.test .C)) ∧
    ∃ lsr asr ror, Mnemonic.Modifies γ .LSR lsr ∧ Mnemonic.Modifies γ .ASR asr ∧ Mnemonic.Modifies γ .ROR ror ∧
      Halves (fun bs => number bs) s as (shiftsDown lsr ror s as) ∧ Halves signed s as (shiftsDown asr ror s as) :=
  ⟨⟨_, _, modifies_left.1, modifies_left.2, exact_shifts hne s⟩,
    _, _, _, modifies_right.1, modifies_right.2.1, modifies_right.2.2, halves_lsr hne s, halves_asr hne s⟩

/-- The number minus three in two bytes, halved downwards: minus two, and one bit over. -/
theorem shifts_exact_negative : ([0xFD, 0xFF] : List Byte) ≠ [] ∧ ∃ asr ror, Mnemonic.Modifies (Array Byte) .ASR asr ∧
    Mnemonic.Modifies (Array Byte) .ROR ror ∧
      let out := shiftsDown asr ror 0 [0xFD, 0xFF]
      signed out.1 = -2 ∧ out.1.length = 2 ∧ out.2.test .C = true := by
  refine ⟨by decide, ?_⟩
  obtain ⟨-, -, asr, ror, -, hasr, hror, -, hhalves⟩ :=
    shifts_exact (γ := Array Byte) (show ([0xFD, 0xFF] : List Byte) ≠ [] by decide) 0
  refine ⟨asr, ror, hasr, hror, hhalves.value.trans (by decide), hhalves.length, ?_⟩
  exact (Option.some.inj hhalves.lowest).symm.trans (by decide)

end Instructions

end Avr

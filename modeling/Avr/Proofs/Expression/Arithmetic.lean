import Avr.Proofs.Expression.Tree
import Mathlib.Data.Nat.Bitwise
import Mathlib.Tactic.Positivity

/-!
# Checked arithmetic is exact arithmetic with its faults

* `bitwise_eq` : the operators on bits, computed on 64-bit words, are those on infinite two's complement;
* `apply_eq`, `UnaryOp.apply_eq` : on 64-bit operands an operator gives its exact value, or the fault of
  the node;
* `Tree.outcome_unary`, `Tree.outcome_binary` : a tree is computed operand by operand with checked arithmetic.
-/

namespace Avr.Expr

/-! ## 64-bit integers -/

theorem fits_iff {v : Int} : fits v = true ↔ -0x8000000000000000 ≤ v ∧ v < 0x8000000000000000 := by
  simp [fits]

theorem fits_natCast {n : Nat} : fits (n : Int) = true ↔ n < 2 ^ 63 := by
  rw [fits_iff]
  omega

theorem fits_negSucc {n : Nat} : fits (Int.negSucc n) = true ↔ n < 2 ^ 63 := by
  rw [fits_iff]
  omega

theorem fits_truth (b : Bool) : fits (truth b) = true := by cases b <;> decide

theorem fits_lnot {v : Int} (h : fits v = true) : fits (Int.lnot v) = true := by
  cases v with
  | ofNat n => exact fits_negSucc.2 (fits_natCast.1 h)
  | negSucc n => exact fits_natCast.2 (fits_negSucc.1 h)

theorem lnot_eq (v : Int) : Int.lnot v = -v - 1 := by
  cases v with
  | ofNat n => simp only [Int.lnot, Int.negSucc_eq, Int.ofNat_eq_natCast]; omega
  | negSucc n => simp only [Int.lnot, Int.negSucc_eq]; omega

/-! ## Operators on bits -/

theorem getLsbD_ofInt (v : Int) {i : Nat} (hi : i < 64) : (BitVec.ofInt 64 v).getLsbD i = v.testBit i := by
  cases v with
  | ofNat n => simp [Int.testBit, BitVec.getLsbD_ofNat, hi, -BitVec.getLsbD_eq_getElem]
  | negSucc n =>
    simp [BitVec.ofInt_negSucc_eq_not_ofNat, Int.testBit, BitVec.getLsbD_ofNat, hi, -BitVec.getLsbD_eq_getElem]

/-- A bitwise operator on 64-bit words is the one on infinite two's complement that computes the same bits, if the
value fits. -/
theorem bitwise_eq {f : BitVec 64 → BitVec 64 → BitVec 64} {g : Int → Int → Int} {op : Bool → Bool → Bool}
    (hf : ∀ (x y : BitVec 64) (i : Nat), i < 64 → (f x y).getLsbD i = op (x.getLsbD i) (y.getLsbD i))
    (hg : ∀ (a b : Int) (i : Nat), (g a b).testBit i = op (a.testBit i) (b.testBit i)) {a b : Int}
    (hfits : fits (g a b) = true) : bitwise f a b = g a b := by
  have hbits : f (BitVec.ofInt 64 a) (BitVec.ofInt 64 b) = BitVec.ofInt 64 (g a b) := by
    apply BitVec.eq_of_getLsbD_eq
    intro i hi
    rw [hf _ _ i hi, getLsbD_ofInt _ hi, getLsbD_ofInt _ hi, getLsbD_ofInt _ hi, hg]
  rw [fits_iff] at hfits
  rw [bitwise, hbits, BitVec.toInt_ofInt]
  exact Int.bmod_eq_of_le (by omega) (by omega)

theorem ldiff_le (m n : Nat) : Nat.ldiff m n ≤ m := by
  apply Nat.le_of_testBit
  intro i hi
  rw [Nat.testBit_ldiff] at hi
  simp only [Bool.and_eq_true] at hi
  exact hi.1

theorem fits_land {a b : Int} (ha : fits a = true) (hb : fits b = true) : fits (Int.land a b) = true := by
  rcases a with m | m <;> rcases b with n | n <;>
    simp only [Int.ofNat_eq_natCast, fits_natCast, fits_negSucc, Int.land] at *
  · exact Nat.lt_of_le_of_lt Nat.and_le_left ha
  · exact Nat.lt_of_le_of_lt (ldiff_le _ _) ha
  · exact Nat.lt_of_le_of_lt (ldiff_le _ _) hb
  · exact Nat.or_lt_two_pow ha hb

theorem fits_lor {a b : Int} (ha : fits a = true) (hb : fits b = true) : fits (Int.lor a b) = true := by
  rcases a with m | m <;> rcases b with n | n <;>
    simp only [Int.ofNat_eq_natCast, fits_natCast, fits_negSucc, Int.lor] at *
  · exact Nat.or_lt_two_pow ha hb
  · exact Nat.lt_of_le_of_lt (ldiff_le _ _) hb
  · exact Nat.lt_of_le_of_lt (ldiff_le _ _) ha
  · exact Nat.lt_of_le_of_lt Nat.and_le_left ha

theorem fits_xor {a b : Int} (ha : fits a = true) (hb : fits b = true) : fits (Int.xor a b) = true := by
  rcases a with m | m <;> rcases b with n | n <;>
    simp only [Int.ofNat_eq_natCast, fits_natCast, fits_negSucc, Int.xor] at *
  all_goals exact Nat.xor_lt_two_pow ha hb

theorem bitwise_and {a b : Int} (ha : fits a = true) (hb : fits b = true) :
    bitwise (· &&& ·) a b = Int.land a b :=
  bitwise_eq (fun _ _ _ _ => BitVec.getLsbD_and) Int.testBit_land (fits_land ha hb)

theorem bitwise_or {a b : Int} (ha : fits a = true) (hb : fits b = true) :
    bitwise (· ||| ·) a b = Int.lor a b :=
  bitwise_eq (fun _ _ _ _ => BitVec.getLsbD_or) Int.testBit_lor (fits_lor ha hb)

theorem bitwise_xor {a b : Int} (ha : fits a = true) (hb : fits b = true) :
    bitwise (· ^^^ ·) a b = Int.xor a b :=
  bitwise_eq (fun _ _ _ _ => BitVec.getLsbD_xor) Int.testBit_lxor (fits_xor ha hb)

/-! ## Operators -/

theorem checked_eq (v : Int) : checked v = match overflow? v with
    | some err => .error err
    | none => .ok v := by
  unfold checked overflow?
  split <;> rfl

theorem fits_fdiv_two_pow {a : Int} (ha : fits a = true) (n : Nat) : fits (a.fdiv (2 ^ n)) = true := by
  have hpos : (0 : Int) < 2 ^ n := by positivity
  rw [fits_iff] at ha ⊢
  rw [Int.fdiv_eq_ediv_of_nonneg _ (Int.le_of_lt hpos)]
  constructor
  · rw [Int.le_ediv_iff_mul_le hpos]
    have : (-0x8000000000000000 : Int) * 2 ^ n ≤ -0x8000000000000000 * 1 :=
      Int.mul_le_mul_of_nonpos_left (by omega) (by omega)
    omega
  · rw [Int.ediv_lt_iff_lt_mul hpos]
    have : (0x8000000000000000 : Int) * 1 ≤ 0x8000000000000000 * 2 ^ n :=
      Int.mul_le_mul_of_nonneg_left (by omega) (by omega)
    omega

theorem overflow?_of_fits {v : Int} (h : fits v = true) : overflow? v = none := by simp [overflow?, h]

/-- Operators on 64-bit integers give their exact value unless the node has a fault. -/
theorem apply_eq (o : BinaryOp) {a b : Int} (ha : fits a = true) (hb : fits b = true) :
    o.apply a b = match o.fault? a b with
      | some err => .error err
      | none => .ok (o.value a b) := by
  have htruth : ∀ c : Bool, overflow? (truth c) = none := fun c => overflow?_of_fits (fits_truth c)
  have hshift : (0 ≤ b ∧ b < 64) ↔ (0 ≤ b ∧ b ≤ 63) := by omega
  cases o with
  | mul | add | sub => exact checked_eq _
  | div =>
    simp only [BinaryOp.apply, BinaryOp.fault?, BinaryOp.value]
    split
    · rfl
    · exact checked_eq _
  | shl =>
    simp only [BinaryOp.apply, BinaryOp.fault?, BinaryOp.value, hshift, Int.shiftLeft_eq]
    split
    · exact checked_eq _
    · rfl
  | shr =>
    simp only [BinaryOp.apply, BinaryOp.fault?, BinaryOp.value, hshift]
    split
    · rw [overflow?_of_fits (fits_fdiv_two_pow ha _), Int.shiftRight_eq_div_pow,
        Int.fdiv_eq_ediv_of_nonneg _ (by positivity)]
      norm_cast
    · rfl
  | lt | gt | le | ge | eq | ne | and | or =>
    simp only [BinaryOp.apply, BinaryOp.fault?, BinaryOp.value, htruth, gt_iff_lt, ge_iff_le]
  | bitAnd =>
    simp only [BinaryOp.apply, BinaryOp.fault?, BinaryOp.value, bitwise_and ha hb,
      overflow?_of_fits (fits_land ha hb)]
  | bitXor =>
    simp only [BinaryOp.apply, BinaryOp.fault?, BinaryOp.value, bitwise_xor ha hb,
      overflow?_of_fits (fits_xor ha hb)]
  | bitOr =>
    simp only [BinaryOp.apply, BinaryOp.fault?, BinaryOp.value, bitwise_or ha hb,
      overflow?_of_fits (fits_lor ha hb)]

def UnaryOp.apply : UnaryOp → Int → Except ExprError Int
  | not, v => .ok (truth (v = 0))
  | complement, v => .ok (-v - 1)
  | negate, v => checked (-v)
  | plus, v => .ok v

theorem UnaryOp.apply_eq (o : UnaryOp) {v : Int} (hv : fits v = true) :
    o.apply v = match overflow? (o.value v) with
      | some err => .error err
      | none => .ok (o.value v) := by
  cases o with
  | not => simp only [apply, value, overflow?_of_fits (fits_truth _)]
  | complement => simp only [apply, value, overflow?_of_fits (fits_lnot hv), ← lnot_eq]
  | negate => exact checked_eq _
  | plus => simp only [apply, value, overflow?_of_fits hv]

theorem fits_of_overflow? {v : Int} (h : overflow? v = none) : fits v = true := by
  unfold overflow? at h
  split at h
  · assumption
  · contradiction

theorem fits_of_fault? {o : BinaryOp} {a b : Int} (h : o.fault? a b = none) : fits (o.value a b) = true := by
  cases o with
  | div | shl | shr =>
    simp only [BinaryOp.fault?] at h
    split at h
    · first | contradiction | exact fits_of_overflow? h
    · first | contradiction | exact fits_of_overflow? h
  | mul | add | sub | lt | gt | le | ge | eq | ne | bitAnd | bitXor | bitOr | and | or => exact fits_of_overflow? h

/-- A tree without faults comes to a 64-bit integer. -/
theorem Tree.fits_of_outcome {e : Tree} {v : Int} (h : e.outcome = .ok v) : fits v = true := by
  rw [outcome_eq_ok_iff] at h
  obtain ⟨hnodes, rfl⟩ := h
  cases e with
  | lit v => exact v.2
  | unary o e => exact fits_of_overflow? (hnodes (.unary o e) (by simp [nodes]))
  | binary o l r => exact fits_of_fault? (hnodes (.binary o l r) (by simp [nodes]))

theorem Tree.outcome_unary (o : UnaryOp) (e : Tree) : (unary o e).outcome = e.outcome.bind o.apply := by
  rw [outcome_unary_node]
  cases h : e.outcome with
  | error err => rfl
  | ok v => exact (o.apply_eq (fits_of_outcome h)).symm

/-- An operator is computed after both of its operands, the left one first. -/
theorem Tree.outcome_binary (o : BinaryOp) (l r : Tree) :
    (binary o l r).outcome = l.outcome.bind fun a => r.outcome.bind fun b => o.apply a b := by
  rw [outcome_binary_node]
  cases hl : l.outcome with
  | error err => rfl
  | ok a =>
    cases hr : r.outcome with
    | error err => rfl
    | ok b => exact (apply_eq o (fits_of_outcome hl) (fits_of_outcome hr)).symm

end Avr.Expr

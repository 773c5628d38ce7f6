import Avr.Alu

/-!
# Status bits as arithmetic

* `Alu.Result.test_apply` : an operation writes the bits of its mask and leaves the others;
* `bit_seven`, `toInt_byte` : the top bit of a byte and its value in two's complement;
* `test_add_C`, `test_add_V`, `test_add_S` : the bits of a sum compare the exact sum with what a byte can hold;
* `test_sub_C`, `test_sub_V`, `test_sub_S` : the bits of a difference do the same for the exact difference.
-/

namespace Avr.Alu

/-! ## Which bits are written -/

theorem Result.test_apply {α : Type} (r : Result α) (s : Status) (b : StatusBit) :
    (r.apply s).test b = if r.mask.test b then r.flags.test b else s.test b := by
  have hb : b.index < 8 := by cases b <;> decide
  simp only [Result.apply, Status.test, BitVec.getLsbD_or, BitVec.getLsbD_and, BitVec.getLsbD_not, hb, decide_true,
    Bool.true_and]
  by_cases hmask : r.mask.getLsbD b.index = true <;> simp [hmask]

section Flags

variable (c z n v h : Bool)

@[simp] theorem test_flagsOf_C : (flagsOf c z n v h).test .C = c := by simp [flagsOf, Status.test_assign]

@[simp] theorem test_flagsOf_Z : (flagsOf c z n v h).test .Z = z := by simp [flagsOf, Status.test_assign]

@[simp] theorem test_flagsOf_N : (flagsOf c z n v h).test .N = n := by simp [flagsOf, Status.test_assign]

@[simp] theorem test_flagsOf_V : (flagsOf c z n v h).test .V = v := by simp [flagsOf, Status.test_assign]

@[simp] theorem test_flagsOf_S : (flagsOf c z n v h).test .S = (n ^^ v) := by simp [flagsOf, Status.test_assign]

end Flags

theorem test_arithmeticMask (b : StatusBit) : arithmeticMask.test b = (b != .T && b != .I) := by cases b <;> decide

/-- Sums and differences write all bits but the last two. -/
theorem test_apply_arithmetic {α : Type} {r : Result α} (hr : r.mask = arithmeticMask) (s : Status) (b : StatusBit) :
    (r.apply s).test b = if b = .T ∨ b = .I then s.test b else r.flags.test b := by
  rw [Result.test_apply, hr, test_arithmeticMask]
  cases b <;> rfl

/-! ## Bytes as numbers -/

theorem bit_seven (v : Byte) : bit v 7 = decide (128 ≤ v.toNat) := by
  rw [bit, ← BitVec.msb_eq_getLsbD_last, BitVec.msb_eq_decide]

theorem toInt_byte (v : Byte) :
    128 ≤ v.toNat ∧ v.toInt = v.toNat - 256 ∨ v.toNat < 128 ∧ v.toInt = v.toNat := by
  rw [BitVec.toInt_eq_toNat_cond]
  split <;> omega

theorem toNat_carryByte (c : Bool) : (carryByte c).toNat = c.toNat := by cases c <;> rfl

theorem xor_decide {P Q R : Prop} [Decidable P] [Decidable Q] [Decidable R] (h : ¬ (P ↔ Q) ↔ R) :
    (decide P ^^ decide Q) = decide R := by
  by_cases hP : P <;> by_cases hQ : Q <;> simp_all

/-! ## Sums -/

section Sums

variable (d r : Byte) (c : Bool)

def exactSum : Int := d.toInt + r.toInt + c.toNat

theorem toNat_add_value : (add d r c).value.toNat = (d.toNat + r.toNat + c.toNat) % 256 := by
  change (d + r + carryByte c).toNat = _
  rw [BitVec.toNat_add, BitVec.toNat_add, toNat_carryByte]
  omega

theorem test_add_N : (add d r c).flags.test .N = decide (128 ≤ (add d r c).value.toNat) :=
  (test_flagsOf_N ..).trans (bit_seven _)

theorem test_add_C : (add d r c).flags.test .C = decide (256 ≤ d.toNat + r.toNat + c.toNat) := by
  have hd := d.isLt
  have hr := r.isLt
  have hc := c.toNat_le
  have hvalue := toNat_add_value d r c
  have hcarry : (add d r c).flags.test .C = (bit d 7 && bit r 7 || bit r 7 && !bit (add d r c).value 7 ||
      !bit (add d r c).value 7 && bit d 7) := test_flagsOf_C ..
  rw [hcarry, bit_seven, bit_seven, bit_seven, Bool.eq_iff_iff, decide_eq_true_iff]
  simp only [Bool.or_eq_true, Bool.and_eq_true, Bool.not_eq_true', decide_eq_true_eq, decide_eq_false_iff_not]
  omega

/-- Overflow is an exact sum that no byte in two's complement is. -/
theorem test_add_V : (add d r c).flags.test .V = decide (¬ (-128 ≤ exactSum d r c ∧ exactSum d r c < 128)) := by
  have hd := toInt_byte d
  have hr := toInt_byte r
  have hc := c.toNat_le
  have hvalue := toNat_add_value d r c
  have hoverflow : (add d r c).flags.test .V = (bit d 7 && bit r 7 && !bit (add d r c).value 7 ||
      !bit d 7 && !bit r 7 && bit (add d r c).value 7) := test_flagsOf_V ..
  rw [hoverflow, bit_seven, bit_seven, bit_seven, Bool.eq_iff_iff, decide_eq_true_iff, exactSum]
  simp only [Bool.or_eq_true, Bool.and_eq_true, Bool.not_eq_true', decide_eq_true_eq, decide_eq_false_iff_not]
  omega

theorem test_add_S : (add d r c).flags.test .S = decide (exactSum d r c < 0) := by
  have hd := toInt_byte d
  have hr := toInt_byte r
  have hc := c.toNat_le
  have hvalue := toNat_add_value d r c
  have hsign : (add d r c).flags.test .S = ((add d r c).flags.test .N ^^ (add d r c).flags.test .V) := by
    simp [add]
  rw [hsign, test_add_N, test_add_V]
  refine xor_decide ?_
  rw [exactSum]
  omega

end Sums

/-! ## Differences -/

section Differences

variable (d r : Byte) (c z : Bool)

def exactDifference : Int := d.toInt - r.toInt - c.toNat

theorem toNat_sub_value : (sub d r c z).value.toNat = (d.toNat + 256 + 256 - r.toNat - c.toNat) % 256 := by
  have hc := c.toNat_le
  have hr := r.isLt
  change (d - r - carryByte c).toNat = _
  rw [BitVec.toNat_sub, BitVec.toNat_sub, toNat_carryByte]
  omega

theorem test_sub_N : (sub d r c z).flags.test .N = decide (128 ≤ (sub d r c z).value.toNat) :=
  (test_flagsOf_N ..).trans (bit_seven _)

theorem test_sub_C : (sub d r c z).flags.test .C = decide (d.toNat < r.toNat + c.toNat) := by
  have hd := d.isLt
  have hr := r.isLt
  have hc := c.toNat_le
  have hvalue := toNat_sub_value d r c z
  have hcarry : (sub d r c z).flags.test .C = (!bit d 7 && bit r 7 || bit r 7 && bit (sub d r c z).value 7 ||
      bit (sub d r c z).value 7 && !bit d 7) := test_flagsOf_C ..
  rw [hcarry, bit_seven, bit_seven, bit_seven, Bool.eq_iff_iff, decide_eq_true_iff]
  simp only [Bool.or_eq_true, Bool.and_eq_true, Bool.not_eq_true', decide_eq_true_eq, decide_eq_false_iff_not]
  omega

/-- The zero bit is set if the difference is zero and the bit was set before. -/
theorem test_sub_Z : (sub d r c z).flags.test .Z = (decide ((sub d r c z).value.toNat = 0) && z) := by
  have hzero : (sub d r c z).flags.test .Z = ((sub d r c z).value == 0 && z) := test_flagsOf_Z ..
  rw [hzero]
  congr 1
  rw [Bool.eq_iff_iff, beq_iff_eq, decide_eq_true_iff, ← BitVec.toNat_inj]
  rfl

theorem test_sub_V : (sub d r c z).flags.test .V =
    decide (¬ (-128 ≤ exactDifference d r c ∧ exactDifference d r c < 128)) := by
  have hd := toInt_byte d
  have hr := toInt_byte r
  have hc := c.toNat_le
  have hlt := r.isLt
  have hvalue := toNat_sub_value d r c z
  have hoverflow : (sub d r c z).flags.test .V = (bit d 7 && !bit r 7 && !bit (sub d r c z).value 7 ||
      !bit d 7 && bit r 7 && bit (sub d r c z).value 7) := test_flagsOf_V ..
  rw [hoverflow, bit_seven, bit_seven, bit_seven, Bool.eq_iff_iff, decide_eq_true_iff, exactDifference]
  simp only [Bool.or_eq_true, Bool.and_eq_true, Bool.not_eq_true', decide_eq_true_eq, decide_eq_false_iff_not]
  omega

theorem test_sub_S : (sub d r c z).flags.test .S = decide (exactDifference d r c < 0) := by
  have hd := toInt_byte d
  have hr := toInt_byte r
  have hc := c.toNat_le
  have hlt := r.isLt
  have hvalue := toNat_sub_value d r c z
  have hsign : (sub d r c z).flags.test .S = ((sub d r c z).flags.test .N ^^ (sub d r c z).flags.test .V) := by
    simp [sub]
  rw [hsign, test_sub_N, test_sub_V]
  refine xor_decide ?_
  rw [exactDifference]
  omega

end Differences

end Avr.Alu

import Avr.Status

/-!
# Arithmetic and logic

* `Alu.Result` : a value with the status bits that go with it, and `Result.apply` its effect on the register;
* `add`, `sub`, `neg`, `logic`, `com`, `inc`, `dec` : operations on bytes;
* `lsr`, `asr`, `ror` : shifts to the right;
* `addWord`, `subWord` : a word and a small constant;
* `mul`, `fmul` : products, plain and fractional.

Shifts to the left are additions of a byte to itself.
-/

namespace Avr.Alu

/-- A value and the status bits that an operation writes: those of `mask`, with the values in `flags`. -/
structure Result (α : Type) where
  value : α
  flags : Status
  mask : Status

/-- The status register after the operation. -/
def Result.apply {α : Type} (r : Result α) (s : Status) : Status := (s &&& ~~~r.mask) ||| (r.flags &&& r.mask)

/-! ## Status bits -/

/-- Status bits with the sign bit computed from negative and overflow. -/
def flagsOf (c z n v h : Bool) : Status :=
  let set (s : Status) (b : StatusBit) (x : Bool) : Status := Status.assign s b x
  set (set (set (set (set (set 0 .C c) .Z z) .N n) .V v) .S (n ^^ v)) .H h

def logicMask : Status := Status.only .S ||| Status.only .V ||| Status.only .N ||| Status.only .Z

def shiftMask : Status := logicMask ||| Status.only .C

def arithmeticMask : Status := shiftMask ||| Status.only .H

def productMask : Status := Status.only .Z ||| Status.only .C

def bit (v : Byte) (n : Nat) : Bool := v.getLsbD n

def carryByte (c : Bool) : Byte := if c then 1 else 0

/-! ## Sums and differences -/

def add (d r : Byte) (carry : Bool) : Result Byte :=
  let sum := d + r + carryByte carry
  let (d3, r3, s3) := (bit d 3, bit r 3, bit sum 3)
  let (d7, r7, s7) := (bit d 7, bit r 7, bit sum 7)
  { value := sum
    flags := flagsOf (d7 && r7 || r7 && !s7 || !s7 && d7) (sum == 0) s7 (d7 && r7 && !s7 || !d7 && !r7 && s7)
      (d3 && r3 || r3 && !s3 || !s3 && d3)
    mask := arithmeticMask }

/-- The difference of two bytes less a borrow. The zero bit is set only if it may be: in a chain of bytes, if it
was set before. -/
def sub (d r : Byte) (borrow : Bool) (zeroBefore : Bool) : Result Byte :=
  let diff := d - r - carryByte borrow
  let (d3, r3, s3) := (bit d 3, bit r 3, bit diff 3)
  let (d7, r7, s7) := (bit d 7, bit r 7, bit diff 7)
  { value := diff
    flags := flagsOf (!d7 && r7 || r7 && s7 || s7 && !d7) (diff == 0 && zeroBefore) s7
      (d7 && !r7 && !s7 || !d7 && r7 && s7) (!d3 && r3 || r3 && s3 || s3 && !d3)
    mask := arithmeticMask }

def neg (d : Byte) : Result Byte := sub 0 d false true

def inc (d : Byte) : Result Byte :=
  let sum := d + 1
  ⟨sum, flagsOf false (sum == 0) (bit sum 7) (d == 0x7F) false, logicMask⟩

def dec (d : Byte) : Result Byte :=
  let diff := d - 1
  ⟨diff, flagsOf false (diff == 0) (bit diff 7) (d == 0x80) false, logicMask⟩

def addWord (w k : Word) : Result Word :=
  let sum := w + k
  let (w15, s15) := (w.getLsbD 15, sum.getLsbD 15)
  ⟨sum, flagsOf (!s15 && w15) (sum == 0) s15 (!w15 && s15) false, shiftMask⟩

def subWord (w k : Word) : Result Word :=
  let diff := w - k
  let (w15, s15) := (w.getLsbD 15, diff.getLsbD 15)
  ⟨diff, flagsOf (s15 && !w15) (diff == 0) s15 (w15 && !s15) false, shiftMask⟩

/-! ## Logic and shifts -/

def logic (value : Byte) : Result Byte := ⟨value, flagsOf false (value == 0) (bit value 7) false false, logicMask⟩

def com (d : Byte) : Result Byte :=
  let value := ~~~d
  ⟨value, flagsOf true (value == 0) (bit value 7) false false, shiftMask⟩

/-- A byte shifted to the right, with `top` as its new top bit. -/
def shiftRight (d : Byte) (top : Bool) : Result Byte :=
  let value := d >>> 1 ||| carryByte top <<< 7
  let (c, n) := (bit d 0, bit value 7)
  ⟨value, flagsOf c (value == 0) n (n ^^ c) false, shiftMask⟩

/-- A shift that brings in zero. -/
def lsr (d : Byte) : Result Byte := shiftRight d false

/-- A shift that keeps the sign. -/
def asr (d : Byte) : Result Byte := shiftRight d (bit d 7)

/-- A shift that brings in the carry. -/
def ror (d : Byte) (carry : Bool) : Result Byte := shiftRight d carry

/-! ## Products -/

/-- Which factors of a product carry a sign. -/
inductive Signedness
  | unsigned | signed
  /-- The first factor has a sign, the second has none. -/
  | mixed
deriving DecidableEq, Repr

def product (d r : Byte) : Signedness → Word
  | .unsigned => d.setWidth 16 * r.setWidth 16
  | .signed => d.signExtend 16 * r.signExtend 16
  | .mixed => d.signExtend 16 * r.setWidth 16

/-- A product; the carry is its top bit. -/
def mul (d r : Byte) (s : Signedness) : Result Word :=
  let value := product d r s
  ⟨value, flagsOf (value.getLsbD 15) (value == 0) false false false, productMask⟩

/-- A product shifted to the left once; the carry is the bit shifted out. -/
def fmul (d r : Byte) (s : Signedness) : Result Word :=
  let raw := product d r s
  let value := raw <<< 1
  ⟨value, flagsOf (raw.getLsbD 15) (value == 0) false false false, productMask⟩

end Avr.Alu

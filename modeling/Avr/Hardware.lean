/-!
# The hardware: words, memories and reserved cells

* `Byte`, `Word` : the cells of data memory and the 16-bit values made of two of them;
* `lowByte`, `highByte`, `wordOf` : a word and its bytes;
* `flashSize`, `ramSize` and the addresses below them : the two memories and the cells with a meaning of their own.

Data memory begins with the 32 registers, then the 64 input/output cells and an extended window; assembled data
starts at `ramStart`. The stack grows down from `ramEnd`.
-/

namespace Avr

abbrev Byte := BitVec 8

/-- A 16-bit value: a pointer, the stack pointer, an opcode word. -/
abbrev Word := BitVec 16

/-! ## Memories -/

/-- The last program slot; a program that gets there has finished. -/
def flashEnd : Nat := 0x3FFF

def ramEnd : Nat := 0x08FF

/-- The number of program slots, one for each opcode word. -/
def flashSize : Nat := flashEnd + 1

abbrev ramSize : Nat := 2304

def registerCount : Nat := 32

def ioOffset : Nat := 0x20

/-- The first data address behind the registers and the input/output windows. -/
def ramStart : Nat := 0x100

theorem ramSize_eq : ramSize = ramEnd + 1 := rfl

/-! ## Reserved cells -/

/-- The cell of the entry index, low byte. -/
def entryLowCell : Nat := 0x5B

def entryHighCell : Nat := 0x5C

def stackLowCell : Nat := 0x5D

def stackHighCell : Nat := 0x5E

def statusCell : Nat := 0x5F

/-! ## Words and bytes -/

def lowByte (w : Word) : Byte := w.setWidth 8

def highByte (w : Word) : Byte := (w >>> 8).setWidth 8

def wordOf (low high : Byte) : Word := high.setWidth 16 <<< 8 ||| low.setWidth 16

theorem toNat_lowByte (w : Word) : (lowByte w).toNat = w.toNat % 256 := by simp [lowByte]

theorem toNat_highByte (w : Word) : (highByte w).toNat = w.toNat / 256 := by
  have := w.isLt
  simp only [highByte, BitVec.toNat_setWidth, BitVec.toNat_ushiftRight, Nat.shiftRight_eq_div_pow]
  omega

theorem toNat_wordOf (low high : Byte) : (wordOf low high).toNat = 256 * high.toNat + low.toNat := by
  have hl := low.isLt
  have hh := high.isLt
  have hor : high.toNat <<< 8 ||| low.toNat = high.toNat <<< 8 + low.toNat :=
    (Nat.shiftLeft_add_eq_or_of_lt hl high.toNat).symm
  simp only [wordOf, BitVec.toNat_or, BitVec.toNat_shiftLeft, BitVec.toNat_setWidth]
  rw [Nat.mod_eq_of_lt (show high.toNat < 2 ^ 16 by omega), Nat.mod_eq_of_lt (show low.toNat < 2 ^ 16 by omega),
    Nat.mod_eq_of_lt (show high.toNat <<< 8 < 2 ^ 16 by rw [Nat.shiftLeft_eq]; omega), hor, Nat.shiftLeft_eq]
  omega

end Avr

import Avr.Hardware

/-!
# Pointer registers

* `Pointer` : X, Y and Z, each a pair of registers;
* `PointerMode` : how an operand uses its pointer: plain, with post-increment, pre-decrement or displacement.
-/

namespace Avr

/-- A 16-bit pointer held in a pair of the upper registers. -/
inductive Pointer
  | X | Y | Z
deriving DecidableEq, Repr

namespace Pointer

def lowRegister : Pointer → Nat
  | X => 26
  | Y => 28
  | Z => 30

def highRegister (p : Pointer) : Nat := p.lowRegister + 1

def letter : Pointer → Char
  | X => 'X'
  | Y => 'Y'
  | Z => 'Z'

def name (p : Pointer) : String := p.letter.toString

/-- The pointer of a letter, in either case. -/
def ofLetter? (c : Char) : Option Pointer :=
  match c.toUpper with
  | 'X' => some X
  | 'Y' => some Y
  | 'Z' => some Z
  | _ => none

end Pointer

/-- How an operand uses its pointer. -/
inductive PointerMode
  /-- The pointer is the address. -/
  | plain
  /-- The pointer is the address and then grows by one. -/
  | postInc
  /-- The pointer shrinks by one and is then the address. -/
  | preDec
  /-- The address lies `q` above the pointer. -/
  | disp (q : Nat)
deriving DecidableEq, Repr

end Avr

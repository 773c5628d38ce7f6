import Avr.Hardware

/-!
# The status register

* `StatusBit` : the eight bits of the register, by index;
* `Status` : the register, a byte, with `test` and `assign` for its bits;
* `Status.letters` : the register from bit 7 down, upper case where set.
-/

namespace Avr

/-- The bits of the status register: carry, zero, negative, overflow, sign, half carry, transfer, interrupt. -/
inductive StatusBit
  | C | Z | N | V | S | H | T | I
deriving DecidableEq, Repr

namespace StatusBit

def index : StatusBit → Nat
  | C => 0
  | Z => 1
  | N => 2
  | V => 3
  | S => 4
  | H => 5
  | T => 6
  | I => 7

/-- The bit at a place, places taken modulo eight. -/
def ofIndex (n : Nat) : StatusBit :=
  match n % 8 with
  | 0 => C
  | 1 => Z
  | 2 => N
  | 3 => V
  | 4 => S
  | 5 => H
  | 6 => T
  | _ => I

def name : StatusBit → String
  | C => "C"
  | Z => "Z"
  | N => "N"
  | V => "V"
  | S => "S"
  | H => "H"
  | T => "T"
  | I => "I"

/-- The bits from the top of the register down, as they are shown. -/
def shown : List StatusBit := [I, T, H, S, V, N, Z, C]

end StatusBit

abbrev Status := Byte

namespace Status

/-- The register with only this bit set. -/
def only (b : StatusBit) : Status := 1#8 <<< b.index

def test (s : Status) (b : StatusBit) : Bool := s.getLsbD b.index

/-- The register with one bit given a value. -/
def assign (s : Status) (b : StatusBit) (v : Bool) : Status :=
  if v then s ||| only b else s &&& ~~~only b

/-- One letter per bit, from bit 7 down, upper case where the bit is set. -/
def letters (s : Status) : String :=
  String.ofList (StatusBit.shown.flatMap fun b =>
    if test s b then b.name.toList else b.name.toList.map Char.toLower)

theorem test_assign (s : Status) (b b' : StatusBit) (v : Bool) :
    test (assign s b v) b' = if b' = b then v else test s b' := by
  cases b <;> cases b' <;> cases v <;> simp [test, assign, only, StatusBit.index]

end Status

end Avr

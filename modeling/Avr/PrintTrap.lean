/-!
# Functions that the simulator serves

`PseudoFunc` : the call targets that are no code in program memory. The only one prints a text.
-/

namespace Avr

/-- A call target served by the simulator. -/
inductive PseudoFunc
  | printf
deriving DecidableEq, Repr

namespace PseudoFunc

def name : PseudoFunc → String
  | printf => "printf"

def ofName? (s : String) : Option PseudoFunc := if s = "printf" then some printf else none

/-- The registers that receive the number of bytes printed, low byte first. -/
def countRegisters : Nat × Nat := (24, 25)

/-- The registers that printing leaves at `0xFF`. -/
def clobbered : List Nat := [26, 27, 30, 31]

end PseudoFunc

end Avr

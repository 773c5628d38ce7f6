import Avr.Mnemonic
import Avr.Text.Hex

/-!
# Runtime faults

`Fault` : what stops a machine in error, and `Fault.message` the fault in words.
-/

namespace Avr

/-- What stops a machine in error. -/
inductive Fault
  | stackOverflow (sp : Nat)
  | stackUnderflow (sp : Nat)
  | addressOutOfRange (address : Nat)
  | jumpOutOfRange (target : Int)
  | unterminatedString (address : Nat)
  | continuationExecuted (index : Nat)
  | malformedOperands (m : Mnemonic)
  | stepLimit (limit : Nat)
deriving DecidableEq, Repr

namespace Fault

def message : Fault → String
  | stackOverflow sp => "Stack overflow: SP " ++ Text.hexAddress sp ++ " is below the start of RAM"
  | stackUnderflow sp => "Stack underflow: SP " ++ Text.hexAddress sp ++ " is at the top of RAM"
  | addressOutOfRange a => "Data address " ++ Text.hexAddress a ++ " out of range"
  | jumpOutOfRange target => "Program address " ++ toString target ++ " out of range"
  | unterminatedString a => "String at " ++ Text.hexAddress a ++ " runs off the end of RAM"
  | continuationExecuted i => "PC " ++ Text.hexAddress i ++ " points into the middle of a two-word instruction"
  | malformedOperands m => "Malformed operands for " ++ m.name
  | stepLimit n => "Step limit of " ++ toString n ++ " reached, the program may not terminate"

end Fault

end Avr

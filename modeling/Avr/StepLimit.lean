import Avr.Text.Case
import Avr.Text.Numeral

/-!
# Step limits

`StepLimit` : how many instructions a run may execute; `StepLimit.ofText?` reads one and `StepLimit.text` shows
it.
-/

namespace Avr

/-- The number of instructions a run may execute; `none` is no limit. -/
abbrev StepLimit := Option Nat

namespace StepLimit

/-- The limit of a run that asks for none. -/
def standard : StepLimit := some 1000000

/-- A limit as it is written: a number of at most 64 bits, or a word or sign for no limit. -/
def ofText? (s : String) : Except Text.NumeralError StepLimit :=
  if Text.sameLetters s "unlimited" || Text.sameLetters s "infinity" || s == "∞" then .ok none
  else (Text.readUnsigned? s.toList).map some

def text (l : StepLimit) : String := (l.map toString).getD "∞"

end StepLimit

end Avr

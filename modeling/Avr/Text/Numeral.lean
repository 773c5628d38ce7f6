/-!
# Reading numerals

* `digitValue?` : the value of an ASCII digit or letter in a radix;
* `readNat?` : a non-empty run of digits in a radix, most significant first;
* `readUnsigned?` : a decimal that must fit 64 bits, with the three ways to fail.
-/

namespace Avr.Text

/-- The value of an ASCII digit or letter as a digit of the radix. -/
def digitValue? (radix : Nat) (c : Char) : Option Nat :=
  let v? :=
    if '0' ≤ c ∧ c ≤ '9' then some (c.toNat - 48)
    else if 'a' ≤ c ∧ c ≤ 'z' then some (c.toNat - 87)
    else if 'A' ≤ c ∧ c ≤ 'Z' then some (c.toNat - 55)
    else none
  v?.filter (· < radix)

/-- The number that the digits spell after `acc`, most significant digit first. -/
def readDigits? (radix : Nat) : Nat → List Char → Option Nat
  | acc, [] => some acc
  | acc, c :: cs => (digitValue? radix c).bind fun d => readDigits? radix (acc * radix + d) cs

def readNat? (radix : Nat) (cs : List Char) : Option Nat :=
  if cs.isEmpty then none else readDigits? radix 0 cs

/-- Why a text is not an unsigned number of the wanted size. -/
inductive NumeralError
  | empty
  | invalidDigit
  | tooLarge
deriving DecidableEq, Repr

namespace NumeralError

def message : NumeralError → String
  | empty => "cannot parse integer from empty string"
  | invalidDigit => "invalid digit found in string"
  | tooLarge => "number too large to fit in target type"

end NumeralError

/-- The number that decimal digits spell after `acc`, which must stay below `bound`; the first fault wins. -/
def readBounded (bound : Nat) : Nat → List Char → Except NumeralError Nat
  | acc, [] => .ok acc
  | acc, c :: cs =>
    match digitValue? 10 c with
    | none => .error .invalidDigit
    | some d => if acc * 10 + d < bound then readBounded bound (acc * 10 + d) cs else .error .tooLarge

/-- A decimal of at most 64 bits, with an optional plus sign in front. -/
def readUnsigned? : List Char → Except NumeralError Nat
  | [] => .error .empty
  | ['+'] => .error .invalidDigit
  | '+' :: cs => readBounded 0x10000000000000000 0 cs
  | cs => readBounded 0x10000000000000000 0 cs

end Avr.Text

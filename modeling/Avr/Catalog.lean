import Avr.Text.Case

/-!
# What the catalog says about an instruction

* `ArgKind` : the shapes an operand can have once all names are resolved;
* `Constraint` : at most one condition on the value or the text of an operand;
* `ArgSpec` : the kinds and the constraint of one operand place;
* `Flow` : how a label among the operands turns into a number;
* `Encoding` : an opcode as a template of bits and field letters, or by a rule of its own;
* `Entry` : all of this for one mnemonic, with its width in words and its base cycles.
-/

namespace Avr.Catalog

/-- The shapes of operands. -/
inductive ArgKind
  | reg | int | word | wordPlus | minusWord | wordPlusQ | func
deriving DecidableEq, Repr

namespace ArgKind

def name : ArgKind → String
  | reg => "Reg"
  | int => "Int"
  | word => "Word"
  | wordPlus => "WordPlus"
  | minusWord => "MinusWord"
  | wordPlusQ => "WordPlusQ"
  | func => "Func"

end ArgKind

/-- A condition on an operand beyond its kind. -/
inductive Constraint
  | any
  | range (low high : Int)
  | oneOf (values : List Int)
  | exact (text : String)
deriving DecidableEq, Repr

namespace Constraint

def admitsValue (v : Int) : Constraint → Bool
  | any | exact _ => true
  | range low high => decide (low ≤ v) && decide (v ≤ high)
  | oneOf values => values.contains v

/-- Whether the condition admits a text, letters compared without case. -/
def admitsText (s : String) : Constraint → Bool
  | exact text => Text.sameLetters s text
  | _ => true

def describe : Constraint → String
  | any => "any value"
  | range low high => "a value in [" ++ toString low ++ ", " ++ toString high ++ "]"
  | oneOf values => "one of \x7b" ++ ", ".intercalate (values.map toString) ++ "\x7d"
  | exact text => "exactly '" ++ text ++ "'"

end Constraint

/-- What one operand place accepts. -/
structure ArgSpec where
  kinds : List ArgKind
  constraint : Constraint
deriving DecidableEq, Repr

namespace ArgSpec

def admitsKind (s : ArgSpec) (k : ArgKind) : Bool := s.kinds.contains k

def describe (s : ArgSpec) : String :=
  "|".intercalate (s.kinds.map ArgKind.name) ++ " (" ++ s.constraint.describe ++ ")"

end ArgSpec

/-- How a label among the operands turns into a number: as itself, as an offset from the next instruction, or
as an index of program memory. -/
inductive Flow
  | sequential | relative | absolute
deriving DecidableEq, Repr

/-- How operands turn into an opcode. In a template each bit that is no `0` or `1` belongs to the field of that
letter; `fields` names the field of each operand, with `_` for an operand without one. -/
inductive Encoding
  | template (fields : List Char) (bits : String)
  | irregular
deriving DecidableEq, Repr

structure Entry where
  args : List ArgSpec
  encoding : Encoding
  flow : Flow
  /-- The number of program words it occupies. -/
  width : Nat
  /-- The cycles it takes when it does not branch or skip. -/
  cycles : Nat
deriving DecidableEq, Repr

namespace Entry

/-- An instruction encoded by a template, one cycle long. -/
def template (args : List ArgSpec) (fields bits : String) : Entry where
  args := args
  encoding := .template fields.toList bits
  flow := .sequential
  width := bits.length / 16
  cycles := 1

/-- An instruction encoded by a rule of its own, one word and one cycle long. -/
def irregular (args : List ArgSpec) : Entry where
  args := args
  encoding := .irregular
  flow := .sequential
  width := 1
  cycles := 1

def relative (e : Entry) : Entry := { e with flow := .relative }

def absolute (e : Entry) : Entry := { e with flow := .absolute }

def taking (e : Entry) (cycles : Nat) : Entry := { e with cycles := cycles }

def arity (e : Entry) : Nat := e.args.length

def isDoubleWord (e : Entry) : Bool := e.width == 2

end Entry

end Avr.Catalog

import Avr.Catalog.Entries
import Avr.Symbols
import Avr.Token

/-!
# What can be wrong with a program

* `LexicalError`, `ExprError`, `LayoutError`, `ResolveError`, `OperandError` : the causes, by the part of the
  assembler that finds them, each with its `message`;
* `Diagnostic` : a cause with the place it is reported at, and `Diagnostic.message` the whole report.
-/

namespace Avr

/-! ## Causes -/

/-- What is wrong with the characters of a line. -/
inductive LexicalError
  | unmatched (text : String)
  | unknownDirective (text : String)
  | registerOutOfRange (text : String)
  | malformedInteger (text : String)
deriving DecidableEq, Repr

namespace LexicalError

def message : LexicalError → String
  | unmatched s => "Unrecognized input '" ++ s ++ "'"
  | unknownDirective s => "Unknown directive '" ++ s ++ "'"
  | registerOutOfRange s => "Register '" ++ s ++ "' out of range, expected R0 to R31"
  | malformedInteger s => "Malformed integer literal '" ++ s ++ "'"

end LexicalError

/-- What is wrong with an expression. -/
inductive ExprError
  | missingOperator
  | missingOperand
  | unbalancedParens
  | divisionByZero
  | shiftOutOfRange (amount : Int)
  | overflow
  | unexpectedToken (text : String)
deriving DecidableEq, Repr

namespace ExprError

def message : ExprError → String
  | missingOperator => "Missing operator between two integers"
  | missingOperand => "Operator is missing an operand"
  | unbalancedParens => "Unbalanced parentheses"
  | divisionByZero => "Division by zero"
  | shiftOutOfRange n => "Shift amount " ++ toString n ++ " out of range"
  | overflow => "Arithmetic overflow"
  | unexpectedToken s => "Unexpected '" ++ s ++ "' in expression"

end ExprError

/-- What is wrong with the structure of a program. -/
inductive LayoutError
  | missingSectionHeader
  | missingEnd
  | missingTextSection
  | unknownSection
  | duplicateSection (d : Directive)
  | dataAfterText
  | missingGlobal
  | lateGlobal (name : String)
  | unresolvedGlobal (name : String)
  | unknownMnemonic (text : String)
  | definition (e : DefinitionError)
  | expectedInstruction (text : String)
  | expectedDirective (text : String)
  | misplacedDirective (d : Directive)
  | malformedArguments (text : String)
  | missingArguments (d : Directive)
  | tooManyArguments (d : Directive)
  | expectedInteger (text : String)
  | expectedString (text : String)
  | expectedName (text : String)
  | expectedRegister (text : String)
  | badEscape (text : String)
  | nonAsciiChar (c : Char)
  | negativeCount (n : Int)
  | flashOverflow
  | ramOverflow
deriving DecidableEq, Repr

namespace LayoutError

def message : LayoutError → String
  | missingSectionHeader => "Program must begin with '.section .data' or '.section .text'"
  | missingEnd => "Program must finish with '.end'"
  | missingTextSection => "Missing '.section .text'"
  | unknownSection => "Expected '.section .data' or '.section .text'"
  | duplicateSection d => "Duplicate '.section " ++ d.name ++ "'"
  | dataAfterText => "The data section must precede the text section"
  | missingGlobal => "The text section must begin with '.global <name>'"
  | lateGlobal s => "'.global " ++ s ++ "' must appear before the first instruction"
  | unresolvedGlobal s => "Global '" ++ s ++ "' does not name a label"
  | unknownMnemonic s => "Unknown instruction '" ++ s ++ "'"
  | definition e => e.message
  | expectedInstruction s => "Illegal token '" ++ s ++ "', expected an instruction"
  | expectedDirective s => "Illegal token '" ++ s ++ "', expected a directive"
  | misplacedDirective d => "Directive '" ++ d.name ++ "' not allowed here"
  | malformedArguments s => "Arguments must be separated by commas, found '" ++ s ++ "'"
  | missingArguments d => "Directive '" ++ d.name ++ "' requires arguments"
  | tooManyArguments d => "Too many arguments to '" ++ d.name ++ "'"
  | expectedInteger s => "Expected an integer, found '" ++ s ++ "'"
  | expectedString s => "Expected a string, found '" ++ s ++ "'"
  | expectedName s => "Expected a name, found '" ++ s ++ "'"
  | expectedRegister s => "Expected a register, found '" ++ s ++ "'"
  | badEscape s => "Unknown escape sequence '\\" ++ s ++ "'"
  | nonAsciiChar c => "Character '" ++ String.ofList [c] ++ "' is not ASCII"
  | negativeCount n => "Negative repeat count " ++ toString n
  | flashOverflow => "Program exceeds flash capacity"
  | ramOverflow => "Data exceeds RAM capacity"

end LayoutError

/-- What is wrong with a name or a byte selection. -/
inductive ResolveError
  | undefinedSymbol (name : String)
  | malformedByteSelect (text : String)
deriving DecidableEq, Repr

namespace ResolveError

def message : ResolveError → String
  | undefinedSymbol s => "Undefined symbol '" ++ s ++ "'"
  | malformedByteSelect s => "Expected '" ++ s ++ "(<expression>)'"

end ResolveError

/-- What is wrong with the operands of an instruction. Operand places count from zero. -/
inductive OperandError
  | misplacedComma
  | missingComma (text : String)
  | argCount (m : Mnemonic) (expected found : Nat)
  | argKind (m : Mnemonic) (place : Nat) (spec : Catalog.ArgSpec) (text : String)
  | argValue (m : Mnemonic) (place : Nat) (constraint : Catalog.Constraint) (text : String)
deriving DecidableEq, Repr

namespace OperandError

def aboutArg (m : Mnemonic) (place : Nat) (wanted text : String) : String :=
  "Argument " ++ toString (place + 1) ++ " of " ++ m.name ++ " must be " ++ wanted ++ ", found '" ++ text ++ "'"

def message : OperandError → String
  | misplacedComma => "Misplaced comma"
  | missingComma s => "Expected a comma before '" ++ s ++ "'"
  | argCount m expected found =>
    m.name ++ " takes " ++ toString expected ++ " argument(s), found " ++ toString found
  | argKind m place spec s => aboutArg m place spec.describe s
  | argValue m place constraint s => aboutArg m place constraint.describe s

end OperandError

/-! ## Reports -/

inductive Cause
  | lexical (e : LexicalError)
  | expression (e : ExprError)
  | layout (e : LayoutError)
  | resolve (e : ResolveError)
  | operand (e : OperandError)
deriving DecidableEq, Repr

namespace Cause

def message : Cause → String
  | lexical e => e.message
  | expression e => e.message
  | layout e => e.message
  | resolve e => e.message
  | operand e => e.message

/-- The sort of error and the part of the assembler that found it. -/
def origin : Cause → String
  | lexical _ => "Lexical Error (in Tokenizer): "
  | expression _ => "Expression Error (in Evaluator): "
  | layout _ => "Assembly Error (in Layout): "
  | resolve _ => "Assembly Error (in Resolver): "
  | operand _ => "Assembly Error (in Generator): "

end Cause

/-- A cause and the place it is reported at, if there is one. -/
structure Diagnostic where
  loc : Option Loc
  cause : Cause
deriving DecidableEq, Repr

namespace Diagnostic

/-- A report at a place. -/
def located (loc : Loc) (cause : Cause) : Diagnostic := ⟨some loc, cause⟩

def message (d : Diagnostic) : String :=
  d.cause.origin ++ "@" ++ (d.loc.map Loc.text).getD "<unknown location>" ++ ": " ++ d.cause.message

end Diagnostic

end Avr

import Avr.Catalog
import Avr.Directive
import Avr.Operator
import Avr.Pointer
import Avr.PrintTrap

/-!
# Tokens

* `Loc` : a place in source text, line and column counted from one, columns in bytes;
* `Kind` : the classes of tokens;
* `Lexeme` : what a token means, `Token` : its meaning, its written form and its place;
* `Line` : the tokens of one line of source that has any;
* `splitArgs` : an argument list without its commas.
-/

namespace Avr

/-- A place in source text. Columns count bytes. -/
structure Loc where
  line : Nat
  col : Nat
deriving DecidableEq, Repr

namespace Loc

def text (l : Loc) : String := "(line: " ++ toString l.line ++ ", col: " ++ toString l.col ++ ")"

end Loc

/-- The classes of tokens. -/
inductive Kind
  | label | lo8 | hi8 | reg | int | inst | str | dir | wordPlusQ | wordPlus | minusWord | word | comma | math
  | symbol | ref | func
deriving DecidableEq, Repr

namespace Kind

def name : Kind → String
  | label => "Label"
  | lo8 => "Lo8"
  | hi8 => "Hi8"
  | reg => "Reg"
  | int => "Int"
  | inst => "Inst"
  | str => "Str"
  | dir => "Dir"
  | wordPlusQ => "WordPlusQ"
  | wordPlus => "WordPlus"
  | minusWord => "MinusWord"
  | word => "Word"
  | comma => "Comma"
  | math => "Math"
  | symbol => "Symbol"
  | ref => "Ref"
  | func => "Func"

/-- The operand shape of tokens of this class, if they are operands. -/
def argKind? : Kind → Option Catalog.ArgKind
  | reg => some .reg
  | int => some .int
  | word => some .word
  | wordPlus => some .wordPlus
  | minusWord => some .minusWord
  | wordPlusQ => some .wordPlusQ
  | func => some .func
  | _ => none

end Kind

/-- One of the two bytes of a word. -/
inductive Half
  | low | high
deriving DecidableEq, Repr

/-- What a token means. -/
inductive Lexeme
  /-- A name that is bound here. -/
  | label (name : String)
  /-- The selection of one byte of a word. -/
  | select (h : Half)
  | reg (n : Nat)
  | int (v : Int)
  /-- The name of an instruction, in upper case. -/
  | inst (name : String)
  /-- A text between quotes, escapes not yet read. -/
  | str (body : String)
  | dir (d : Directive)
  | ptr (p : Pointer) (m : PointerMode)
  | comma
  | sign (s : Sign)
  /-- A character without a meaning of its own. -/
  | symbol
  /-- A name that is used here. -/
  | ref (name : String)
  | func (f : PseudoFunc)
deriving DecidableEq, Repr

namespace Lexeme

def kind : Lexeme → Kind
  | label _ => .label
  | select .low => .lo8
  | select .high => .hi8
  | reg _ => .reg
  | int _ => .int
  | inst _ => .inst
  | str _ => .str
  | dir _ => .dir
  | ptr _ .plain => .word
  | ptr _ .postInc => .wordPlus
  | ptr _ .preDec => .minusWord
  | ptr _ (.disp _) => .wordPlusQ
  | comma => .comma
  | sign _ => .math
  | symbol => .symbol
  | ref _ => .ref
  | func _ => .func

end Lexeme

/-- A piece of source text with its meaning and the place where it starts. -/
structure Token where
  lexeme : Lexeme
  /-- The text as it is written. -/
  raw : String
  loc : Loc
deriving DecidableEq, Repr

namespace Token

def ofInt (v : Int) (loc : Loc) : Token := ⟨.int v, toString v, loc⟩

def kind (t : Token) : Kind := t.lexeme.kind

/-- The name or text that the token carries; for others the written form. -/
def text (t : Token) : String :=
  match t.lexeme with
  | .label s | .inst s | .str s | .ref s => s
  | _ => t.raw

def int? (t : Token) : Option Int :=
  match t.lexeme with
  | .int v => some v
  | _ => none

/-- The number that constraints of the catalog look at. -/
def constrained? (t : Token) : Option Int :=
  match t.lexeme with
  | .int v => some v
  | .reg n => some n
  | .ptr _ (.disp q) => some q
  | .ptr _ _ => some 0
  | _ => none

def isSign (t : Token) (s : Sign) : Bool := t.lexeme == .sign s

def isDir (t : Token) (d : Directive) : Bool := t.lexeme == .dir d

/-- Whether the token is an integer written with a sign of its own. -/
def isSignedLiteral (t : Token) : Bool := t.int?.isSome && t.raw.toList.head? == some '-'

def argKind? (t : Token) : Option Catalog.ArgKind := t.kind.argKind?

def endCol (t : Token) : Nat := t.loc.col + t.raw.utf8ByteSize

def describe (t : Token) : String := t.kind.name ++ "(" ++ t.raw ++ ")"

end Token

/-- A line of source with at least one token. -/
structure Line where
  number : Nat
  tokens : List Token
deriving DecidableEq, Repr

namespace Line

def firstLoc (l : Line) : Loc :=
  match l.tokens with
  | t :: _ => t.loc
  | [] => ⟨l.number, 1⟩

def isLoneDir (l : Line) (d : Directive) : Bool :=
  match l.tokens with
  | [t] => t.isDir d
  | _ => false

def isHeader (l : Line) (d : Directive) : Bool :=
  match l.tokens with
  | [t, u] => t.isDir .header && u.isDir d
  | _ => false

end Line

/-! ## Argument lists -/

mutual

/-- The values of a list that starts with a value. -/
def splitValues : List Token → Except Token (List Token)
  | [] => .ok []
  | t :: ts => if t.kind = .comma then .error t else (splitCommas ts).map (t :: ·)

/-- The values of a list that goes on after a value: nothing, or a comma and a further value. -/
def splitCommas : List Token → Except Token (List Token)
  | [] => .ok []
  | t :: ts =>
    if t.kind = .comma then
      match ts with
      | [] => .error t
      | _ :: _ => splitValues ts
    else .error t

end

/-- The values of a list in which values and commas alternate, starting and ending with a value; else the first
token out of place. -/
def splitArgs (ts : List Token) : Except Token (List Token) := splitValues ts

end Avr

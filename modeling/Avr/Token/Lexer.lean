import Avr.Diagnostic
import Avr.Text.Lines
import Avr.Text.Numeral
import Avr.Token.Pattern

/-!
# From source text to tokens

* `Piece`, `scan` : the pieces of a line that the patterns cut, with their columns;
* `Lexeme.read` : the meaning of a piece of a given class;
* `joinPieces` : the tokens of a line; words that are no mnemonics become names, and the fragments of a name
  are put together again;
* `tokenize` : the lines of a source that have tokens.
-/

namespace Avr

open Text

namespace Lexer

/-! ## Pieces -/

/-- A piece of a line as a pattern has cut it. -/
structure Piece where
  kind : Kind
  text : List Char
  col : Nat
deriving DecidableEq, Repr

def byteLength (cs : List Char) : Nat := (String.ofList cs).utf8ByteSize

/-- Cuts the rest of a line, which begins at column `col`, into pieces. -/
def scan (line col : Nat) (cs : List Char) : Except Diagnostic (List Piece) :=
  if cs.isEmpty then .ok []
  else match firstMatch? cs with
    | some (kind?, n + 1) => do
      let text := cs.take (n + 1)
      let pieces ← scan line (col + byteLength text) (cs.drop (n + 1))
      match kind? with
      | some kind => return ⟨kind, text, col⟩ :: pieces
      | none => return pieces
    | _ => .error (.located ⟨line, col⟩ (.lexical (.unmatched (String.ofList (firstPiece cs)))))
termination_by cs.length
decreasing_by
  cases cs with
  | nil => simp_all
  | cons c cs =>
    simp only [List.length_drop, List.length_cons]
    omega

/-! ## Meanings -/

/-- The radix of an unsigned literal and its digits. -/
def radixOf : List Char → Nat × List Char
  | '0' :: 'x' :: ds | '0' :: 'X' :: ds => (16, ds)
  | '$' :: ds => (16, ds)
  | '0' :: 'o' :: ds | '0' :: 'O' :: ds => (8, ds)
  | '0' :: 'b' :: ds | '0' :: 'B' :: ds => (2, ds)
  | ds => (10, ds)

/-- The value of an unsigned literal, which must be a 64-bit signed integer. -/
def magnitude? (cs : List Char) : Option Nat :=
  let (radix, digits) := radixOf cs
  (readNat? radix digits).filter (· < 0x8000000000000000)

/-- The value of an integer literal. The sign is applied to a value that is itself in range. -/
def integer? : List Char → Option Int
  | '-' :: cs => (magnitude? cs).map fun n => -(n : Int)
  | cs => (magnitude? cs).map fun n => (n : Int)

def readPointer (cs : List Char) : Except LexicalError Lexeme :=
  let unmatched := LexicalError.unmatched (String.ofList cs)
  let withLetter (c : Char) (m : PointerMode) : Except LexicalError Lexeme :=
    match Pointer.ofLetter? c with
    | some p => .ok (.ptr p m)
    | none => .error unmatched
  match cs with
  | ['-', c] => withLetter c .preDec
  | [c, '+'] => withLetter c .postInc
  | [c] => withLetter c .plain
  | c :: '+' :: ds =>
    match readNat? 10 ds with
    | some q => withLetter c (.disp q)
    | none => .error (.malformedInteger (String.ofList ds))
  | _ => .error unmatched

/-- Behind Y or Z and a plus sign stands the displacement. -/
theorem readPointer_displaced {p : Pointer} (hp : p ≠ .X) (d : Char) (ds : List Char) :
    readPointer (p.letter :: '+' :: d :: ds) =
      match readNat? 10 (d :: ds) with
      | some q => .ok (.ptr p (.disp q))
      | none => .error (.malformedInteger (String.ofList (d :: ds))) := by
  cases p with
  | X => exact absurd rfl hp
  | Y | Z => rfl

def readLexeme (kind : Kind) (cs : List Char) : Except LexicalError Lexeme :=
  let raw := String.ofList cs
  match kind with
  | .label => .ok (.label (String.ofList (cs.reverse.dropWhile (· == ':')).reverse))
  | .lo8 => .ok (.select .low)
  | .hi8 => .ok (.select .high)
  | .reg =>
    match readNat? 10 (cs.drop 1) with
    | some n => if n < registerCount then .ok (.reg n) else .error (.registerOutOfRange raw)
    | none => .error (.registerOutOfRange raw)
  | .int =>
    match integer? cs with
    | some v => .ok (.int v)
    | none => .error (.malformedInteger raw)
  | .inst => .ok (.inst (upper raw))
  | .str => .ok (.str (String.ofList (cs.drop 1).dropLast))
  | .dir =>
    match Directive.ofText? raw with
    | some d => .ok (.dir d)
    | none => .error (.unknownDirective raw)
  | .word | .wordPlus | .minusWord | .wordPlusQ => readPointer cs
  | .comma => .ok .comma
  | .math =>
    match Sign.ofText? raw with
    | some s => .ok (.sign s)
    | none => .ok .symbol
  | .symbol => .ok .symbol
  | .ref | .func => .ok (.ref raw)

/-! ## Tokens of a line -/

/-- Whether a piece may go on a name that ends just before it. -/
def Piece.continuesName (p : Piece) : Bool :=
  match p.kind with
  | .ref | .dir => true
  | .int => p.text.head? != some '-'
  | _ => false

/-- The piece with its class in context: only the first piece of a statement, behind a label if there is one,
can be a mnemonic, and later words of that form are names. -/
def Piece.inContext (leadingLabel : Bool) (p : Piece) (place : Nat) : Piece :=
  if p.kind = .inst ∧ place ≠ 0 ∧ ¬ (place = 1 ∧ leadingLabel) then { p with kind := .ref } else p

def Piece.token (line : Nat) (p : Piece) : Except Diagnostic Token :=
  let loc : Loc := ⟨line, p.col⟩
  match readLexeme p.kind p.text with
  | .ok lexeme => .ok ⟨lexeme, String.ofList p.text, loc⟩
  | .error e => .error (.located loc (.lexical e))

/-- Adds a piece to the tokens before it, which are given last first. -/
def addPiece (line : Nat) (done : List Token) (p : Piece) : Except Diagnostic (List Token) :=
  match done with
  | ⟨.ref name, raw, loc⟩ :: earlier =>
    if loc.col + raw.utf8ByteSize = p.col ∧ p.continuesName then
      let text := String.ofList p.text
      .ok (⟨.ref (name ++ text), raw ++ text, loc⟩ :: earlier)
    else (p.token line).map (· :: done)
  | _ => (p.token line).map (· :: done)

def joinPieces (line : Nat) (pieces : List Piece) : Except Diagnostic (List Token) := do
  let leadingLabel := pieces.head?.any (·.kind == .label)
  let placed := pieces.zipIdx.map fun (p, place) => p.inContext leadingLabel place
  return (← placed.foldlM (addPiece line) []).reverse

def tokenizeLine (number : Nat) (cs : List Char) : Except Diagnostic Line := do
  return ⟨number, ← joinPieces number (← scan number 1 cs)⟩

end Lexer

/-- The lines of a source that have tokens. -/
def tokenize (source : String) : Except Diagnostic (List Line) := do
  let lines ← (lines source.toList).zipIdx.mapM fun (cs, i) => Lexer.tokenizeLine (i + 1) cs
  return lines.filter (!·.tokens.isEmpty)

end Avr

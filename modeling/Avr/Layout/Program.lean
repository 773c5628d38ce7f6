import Avr.Layout.Sections

/-!
# Program memory

* `Statement` : an instruction with its operands as they are written;
* `bindLabel` : binds the label that a line starts with;
* `ProgramState`, `ProgramState.add` : the slots filled so far, and one line more;
* `layoutProgram` : the slots of the text section.

An instruction of two words takes two slots; the second one is `none`.
-/

namespace Avr

/-- An instruction with its operands as they are written. -/
structure Statement where
  mnemonic : Mnemonic
  loc : Loc
  args : List Token
  line : Nat
deriving DecidableEq, Repr

/-- Binds the label that the tokens start with, if they do; the tokens behind it and the table. -/
def bindLabel (tokens : List Token) (symbols : Symbols) (index : Nat) :
    Except Diagnostic (List Token × Symbols) :=
  match tokens with
  | ⟨.label name, _, loc⟩ :: rest =>
    match symbols.define name (.label index) with
    | .ok symbols => .ok (rest, symbols)
    | .error e => .error (.located loc (.layout (.definition e)))
  | _ => .ok (tokens, symbols)

def globalName? : List Token → Option (String × Loc)
  | [dir, ⟨.ref name, _, loc⟩] => if dir.isDir .global then some (name, loc) else none
  | _ => none

/-- The text section laid out so far. -/
structure ProgramState where
  slots : Array (Option Statement) := #[]
  symbols : Symbols
  /-- The names declared by `.global`, in order. -/
  globals : List (String × Loc)
  breakpoint : Option Nat := none

namespace ProgramState

/-- The slot at which to stop: the first instruction on or behind the wanted line. -/
def breakpointAt (s : ProgramState) (wanted : Option Nat) (line : Nat) : Option Nat :=
  match s.breakpoint, wanted with
  | none, some w => if w ≤ line then some s.slots.size else none
  | found, _ => found

def push (slots : Array (Option Statement)) (s : Statement) : Array (Option Statement) :=
  if s.mnemonic.entry.isDoubleWord then (slots.push (some s)).push none else slots.push (some s)

/-- Adds an instruction, which must fit into flash. -/
def addStatement (s : ProgramState) (wanted : Option Nat) (st : Statement) : Except Diagnostic ProgramState :=
  let breakpoint := s.breakpointAt wanted st.line
  let slots := push s.slots st
  if flashSize < slots.size then .error (.located st.loc (.layout .flashOverflow))
  else .ok { s with slots := slots, breakpoint := breakpoint }

def addTokens (s : ProgramState) (wanted : Option Nat) (line : Nat) (tokens : List Token) :
    Except Diagnostic ProgramState :=
  match tokens with
  | [] => .ok s
  | head :: args =>
    let fail (e : LayoutError) := .error (.located head.loc (.layout e))
    match head.lexeme with
    | .dir .global =>
      match globalName? tokens with
      | none => fail .missingGlobal
      | some (name, loc) =>
        if s.slots.isEmpty then .ok { s with globals := s.globals ++ [(name, loc)] } else fail (.lateGlobal name)
    | .inst name =>
      match Mnemonic.ofName? name with
      | some m => s.addStatement wanted ⟨m, head.loc, args, line⟩
      | none => fail (.unknownMnemonic head.raw)
    | _ => fail (.expectedInstruction head.raw)

def add (wanted : Option Nat) (s : ProgramState) (line : Line) : Except Diagnostic ProgramState := do
  let (tokens, symbols) ← bindLabel line.tokens s.symbols s.slots.size
  { s with symbols := symbols }.addTokens wanted line.number tokens

end ProgramState

/-- Lays out the text section: the line behind its header declares the entry, the others hold instructions. -/
def layoutProgram (sections : Sections) (lines : List Line) (symbols : Symbols) (wanted : Option Nat) :
    Except Diagnostic ProgramState :=
  let second := lines[sections.text + 1]?
  match second.bind fun line => globalName? line.tokens with
  | none =>
    .error ⟨(second.or lines[sections.text]?).map Line.firstLoc, .layout .missingGlobal⟩
  | some entry => do
    let start : ProgramState := { symbols := symbols, globals := [entry] }
    let s ← (sections.textLines lines).foldlM (ProgramState.add wanted) start
    match s.globals.find? fun (name, _) => (s.symbols.label? name).isNone with
    | some (name, loc) => throw (.located loc (.layout (.unresolvedGlobal name)))
    | none => return s

end Avr

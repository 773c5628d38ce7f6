import Avr.Layout.Program
import Avr.Resolve

/-!
# Data memory

* `DataState` : the bytes laid out so far and the table of names;
* `values`, `integers` : the arguments of a directive, resolved;
* `unescaped` : the bytes of a text between quotes;
* `DataState.add` : one line more; `layoutData` : the bytes of the data section.
-/

namespace Avr

def Token.fail {α : Type} (t : Token) (e : LayoutError) : Except Diagnostic α :=
  .error (.located t.loc (.layout e))

/-! ## Arguments -/

/-- The arguments of directive `dir`, which stands at `head`: resolved, without commas, at least one. -/
def values (symbols : Symbols) (dir : Directive) (head : Token) (args : List Token) :
    Except Diagnostic (List Token) := do
  match splitArgs (← resolveArgs symbols .value args) with
  | .error t => t.fail (.malformedArguments t.raw)
  | .ok [] => head.fail (.missingArguments dir)
  | .ok values => return values

def integer (t : Token) : Except Diagnostic Int :=
  match t.int? with
  | some v => .ok v
  | none => t.fail (.expectedInteger t.raw)

/-- The arguments of a directive, which must be integers, with their places. -/
def integers (symbols : Symbols) (dir : Directive) (head : Token) (args : List Token) :
    Except Diagnostic (List (Loc × Int)) := do
  (← values symbols dir head args).mapM fun t => do return (t.loc, ← integer t)

/-- The bytes of a text between quotes: ASCII characters and escapes. -/
def unescaped : List Char → Except LayoutError (List Byte)
  | [] => .ok []
  | '\\' :: cs =>
    match cs with
    | [] => .error (.badEscape "")
    | c :: cs =>
      match unescape? c with
      | some b => (unescaped cs).map (b :: ·)
      | none => .error (.badEscape (String.ofList [c]))
  | c :: cs =>
    if c.toNat < 128 then (unescaped cs).map (BitVec.ofNat 8 c.toNat :: ·) else .error (.nonAsciiChar c)

/-! ## Statements -/

/-- The data section laid out so far. The bytes include the registers and windows in front of it. -/
structure DataState where
  bytes : Array Byte
  symbols : Symbols

namespace DataState

/-- Adds bytes for the argument at `loc`, which must fit into data memory. -/
def push (s : DataState) (loc : Loc) (bytes : List Byte) : Except Diagnostic DataState :=
  if ramSize < s.bytes.size + bytes.length then .error (.located loc (.layout .ramOverflow))
  else .ok { s with bytes := s.bytes ++ bytes }

/-- Adds `count` copies of a byte for the argument at `loc`, which must fit into data memory. -/
def reserve (s : DataState) (loc : Loc) (count : Nat) (fill : Byte) : Except Diagnostic DataState :=
  if ramSize < s.bytes.size + count then .error (.located loc (.layout .ramOverflow))
  else .ok { s with bytes := s.bytes ++ Array.replicate count fill }

/-- Adds a text argument, followed by a zero byte if `ended`. -/
def pushText (ended : Bool) (s : DataState) (t : Token) : Except Diagnostic DataState :=
  match t.lexeme with
  | .str body =>
    match unescaped body.toList with
    | .ok bytes => s.push t.loc (if ended then bytes ++ [0] else bytes)
    | .error e => t.fail e
  | _ => t.fail (.expectedString t.raw)

/-- Adds the bytes of `.space`: a count and, possibly, the byte to repeat. -/
def space (s : DataState) (head : Token) (ints : List (Loc × Int)) : Except Diagnostic DataState :=
  let fill (loc : Loc) (count value : Int) : Except Diagnostic DataState :=
    if count < 0 then .error (.located loc (.layout (.negativeCount count)))
    else s.reserve loc count.toNat (BitVec.ofInt 8 value)
  match ints with
  | [] => head.fail (.missingArguments .space)
  | [(loc, count)] => fill loc count 0
  | [(loc, count), (_, value)] => fill loc count value
  | _ :: _ :: (loc, _) :: _ => .error (.located loc (.layout (.tooManyArguments .space)))

def define (s : DataState) (name : Token) (b : Binding) : Except Diagnostic DataState :=
  match s.symbols.define name.text b with
  | .ok symbols => .ok { s with symbols := symbols }
  | .error e => name.fail (.definition e)

/-- Binds a constant: a name, a comma and one value. -/
def constant (s : DataState) (dir : Directive) (head : Token) (args : List Token) :
    Except Diagnostic DataState :=
  match args with
  | name :: ⟨.comma, _, _⟩ :: value :: more => do
    if name.kind ≠ .ref then name.fail (.expectedName name.raw)
    match ← resolveArgs s.symbols .value (value :: more) with
    | [] => head.fail (.missingArguments dir)
    | [t] => s.define name (.constant (← integer t))
    | _ :: extra :: _ => extra.fail (.malformedArguments extra.raw)
  | t :: _ => t.fail (.malformedArguments t.raw)
  | [] => head.fail (.missingArguments dir)

def register (s : DataState) (t : Token) : Except Diagnostic Nat :=
  match t.lexeme with
  | .reg n => .ok n
  | .ref name =>
    match s.symbols.registerAlias? name with
    | some n => .ok n
    | none => t.fail (.expectedRegister t.raw)
  | _ => t.fail (.expectedRegister t.raw)

/-- Binds a register alias: a name, an equals sign or comma, and a register. -/
def registerAlias (s : DataState) (head : Token) (args : List Token) : Except Diagnostic DataState :=
  match args with
  | [] => head.fail (.missingArguments .registerAlias)
  | first :: _ =>
    match args with
    | [name, separator, reg] =>
      if separator.raw == "=" || separator.kind == .comma then do
        if name.kind ≠ .ref then name.fail (.expectedName name.raw)
        s.define name (.registerAlias (← s.register reg))
      else first.fail (.malformedArguments first.raw)
    | _ => first.fail (.malformedArguments first.raw)

def directive (s : DataState) (dir : Directive) (head : Token) (args : List Token) :
    Except Diagnostic DataState :=
  match dir with
  | .byte => do
    let ints ← integers s.symbols dir head args
    ints.foldlM (fun s (loc, v) => s.push loc [BitVec.ofInt 8 v]) s
  | .word => do
    let ints ← integers s.symbols dir head args
    ints.foldlM (fun s (loc, v) => s.push loc [lowByte (BitVec.ofInt 16 v), highByte (BitVec.ofInt 16 v)]) s
  | .string | .asciz => do (← values s.symbols dir head args).foldlM (pushText true) s
  | .ascii => do (← values s.symbols dir head args).foldlM (pushText false) s
  | .space => do s.space head (← integers s.symbols dir head args)
  | .equ | .assign => s.constant dir head args
  | .registerAlias => s.registerAlias head args
  | .header | .finish | .text | .data | .global => head.fail (.misplacedDirective dir)

def add (s : DataState) (line : Line) : Except Diagnostic DataState := do
  let (tokens, symbols) ← bindLabel line.tokens s.symbols s.bytes.size
  let s := { s with symbols := symbols }
  match tokens with
  | [] => return s
  | head :: args =>
    match head.lexeme with
    | .dir dir => s.directive dir head args
    | _ => head.fail (.expectedDirective head.raw)

end DataState

/-- Lays out the data section behind the registers and windows. -/
def layoutData (lines : List Line) (symbols : Symbols) : Except Diagnostic DataState :=
  lines.foldlM DataState.add ⟨Array.replicate ramStart 0, symbols⟩

end Avr

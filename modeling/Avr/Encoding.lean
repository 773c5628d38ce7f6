import Avr.Instruction
import Avr.Layout

/-!
# From operands to opcodes

* `checkArg`, `checkArgs` : the operands that tokens spell, checked against the catalog;
* `fillField`, `fill` : a template of bits with its fields filled in;
* `loadTemplate`, `storeTemplate` : the templates of loads and stores by pointer;
* `encode` : the opcode of a mnemonic with operands;
* `Statement.instruction` : the instruction of a statement whose operands are resolved.
-/

namespace Avr

/-! ## Operands -/

def Token.operand? (t : Token) : Option Operand :=
  match t.lexeme with
  | .reg n => some (.reg n)
  | .int v => some (.imm v)
  | .ptr p m => some (.ptr p m)
  | .func f => some (.func f)
  | _ => none

/-- The operand of a token at a place of mnemonic `m`. A function needs only its kind to be accepted; all others
must satisfy the constraint too. -/
def checkArg (m : Mnemonic) (place : Nat) (spec : Catalog.ArgSpec) (t : Token) : Except OperandError Operand :=
  match t.argKind?, t.operand? with
  | some kind, some operand =>
    if !spec.admitsKind kind then .error (.argKind m place spec t.raw)
    else match operand with
      | .func f => .ok (.func f)
      | operand =>
        if spec.constraint.admitsText t.raw && t.constrained?.all spec.constraint.admitsValue then .ok operand
        else .error (.argValue m place spec.constraint t.raw)
  | _, _ => .error (.argKind m place spec t.raw)

/-- The operands of an argument list. A wrong number of them is reported at the first one too many, else at the
mnemonic, which stands at `loc`. -/
def checkArgs (m : Mnemonic) (loc : Loc) (args : List Token) : Except Diagnostic (List Operand) :=
  match splitArgs args with
  | .error t =>
    .error (.located t.loc (.operand (if t.kind = .comma then .misplacedComma else .missingComma t.raw)))
  | .ok args =>
    let entry := m.entry
    if args.length ≠ entry.arity then
      let loc := (args[entry.arity]?.map Token.loc).getD loc
      .error (.located loc (.operand (.argCount m entry.arity args.length)))
    else (entry.args.zip args).zipIdx.mapM fun ((spec, t), place) =>
      match checkArg m place spec t with
      | .ok operand => .ok operand
      | .error e => .error (.located t.loc (.operand e))

/-! ## Templates -/

/-- Bit `n` of a number in two's complement. -/
def bitAt (v : Int) (n : Nat) : Bool := (v >>> n) % 2 == 1

def digit (b : Bool) : Char := if b then '1' else '0'

/-- The template with the bits of `v` in the places of one letter, the last place least significant. -/
def fillField (letter : Char) (v : Int) : List Char → List Char
  | [] => []
  | c :: cs =>
    (if c = letter then digit (bitAt v (cs.count letter)) else c) :: fillField letter v cs

/-- The template with the low bits of each value in the places of its letter. -/
def fill (template : List Char) (values : List (Char × Int)) : List Char :=
  values.foldl (fun bits (letter, v) => fillField letter v bits) template

/-! ## Opcodes -/

/-- The number that an operand puts into its field. The target of a function is not known before it is called, so
its field is all ones. -/
def Operand.fieldValue? : Operand → Option Int
  | .reg n => some n
  | .imm v => some v
  | .ptr _ (.disp q) => some q
  | .ptr _ _ => none
  | .func _ => some (-1)

def loadTemplate : Pointer → PointerMode → String
  | .X, .plain => "1001000ddddd1100"
  | .X, .postInc => "1001000ddddd1101"
  | .X, .preDec => "1001000ddddd1110"
  | .Y, .plain => "1000000ddddd1000"
  | .Y, .postInc => "1001000ddddd1001"
  | .Y, .preDec => "1001000ddddd1010"
  | .Z, .plain => "1000000ddddd0000"
  | .Z, .postInc => "1001000ddddd0001"
  | .Z, .preDec => "1001000ddddd0010"
  | .Y, .disp _ => "10q0qq0ddddd1qqq"
  | _, .disp _ => "10q0qq0ddddd0qqq"

def storeTemplate : Pointer → PointerMode → String
  | .X, .plain => "1001001ddddd1100"
  | .X, .postInc => "1001001ddddd1101"
  | .X, .preDec => "1001001ddddd1110"
  | .Y, .plain => "1000001ddddd1000"
  | .Y, .postInc => "1001001ddddd1001"
  | .Y, .preDec => "1001001ddddd1010"
  | .Z, .plain => "1000001ddddd0000"
  | .Z, .postInc => "1001001ddddd0001"
  | .Z, .preDec => "1001001ddddd0010"
  | .Y, .disp _ => "10q0qq1ddddd1qqq"
  | _, .disp _ => "10q0qq1ddddd0qqq"

def PointerMode.displacement : PointerMode → Nat
  | .disp q => q
  | _ => 0

/-- The opcode of an instruction that no template of the catalog covers: arithmetic on pairs, instructions that
are another one with equal or complemented operands, and pointer accesses. -/
def encodeIrregular (m : Mnemonic) (ops : List Operand) : Option (List Char) :=
  let twice (template : String) (n : Nat) := some (fill template.toList [('d', n), ('r', n)])
  match m, ops with
  | .ADIW, [.reg n, .imm k] => some (fill "10010110KKddKKKK".toList [('d', ((n : Int) - 24) / 2), ('K', k)])
  | .SBIW, [.reg n, .imm k] => some (fill "10010111KKddKKKK".toList [('d', ((n : Int) - 24) / 2), ('K', k)])
  | .CBR, [.reg n, .imm k] => some (fill "0111KKKKddddKKKK".toList [('d', n), ('K', -k - 1)])
  | .CLR, [.reg n] => twice "001001rdddddrrrr" n
  | .LSL, [.reg n] => twice "000011rdddddrrrr" n
  | .ROL, [.reg n] => twice "000111rdddddrrrr" n
  | .TST, [.reg n] => twice "001000rdddddrrrr" n
  | .MOVW, [.reg n, .reg k] => some (fill "00000001ddddrrrr".toList [('d', n / 2), ('r', k / 2)])
  | .LD, [.reg n, .ptr p mode] | .LDD, [.reg n, .ptr p mode] =>
    some (fill (loadTemplate p mode).toList [('d', n), ('q', mode.displacement)])
  | .ST, [.ptr p mode, .reg n] | .STD, [.ptr p mode, .reg n] =>
    some (fill (storeTemplate p mode).toList [('d', n), ('q', mode.displacement)])
  | _, _ => none

def fieldValues? (fields : List Char) (ops : List Operand) : Option (List (Char × Int)) :=
  ((fields.zip ops).filter fun (letter, _) => letter ≠ '_').mapM fun (letter, op) =>
    op.fieldValue?.map (letter, ·)

/-- The opcode of a mnemonic with operands, as binary digits. -/
def encode (m : Mnemonic) (ops : List Operand) : Option String :=
  match m.entry.encoding with
  | .template fields bits => (fieldValues? fields ops).map fun values => String.ofList (fill bits.toList values)
  | .irregular => (encodeIrregular m ops).map String.ofList

/-! ## Instructions -/

def Statement.instruction (s : Statement) : Except Diagnostic Instruction := do
  let operands ← checkArgs s.mnemonic s.loc s.args
  match encode s.mnemonic operands with
  | some opcode => return ⟨s.mnemonic, operands, opcode, s.line⟩
  | none => throw (.located s.loc (.operand (.argCount s.mnemonic s.mnemonic.entry.arity operands.length)))

end Avr

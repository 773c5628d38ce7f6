import Avr.Expr

/-!
# Names and byte selections

* `Reference` : whether a label stands for itself or for the distance to it;
* `resolveRefs` : names replaced by the numbers, registers and functions they stand for;
* `closeGroup?` : the tokens up to the parenthesis that closes a group;
* `resolveSelects` : each `lo8(...)` and `hi8(...)` replaced by a byte;
* `resolveArgs` : both, and then the value of every expression.

A replaced token keeps its written form and its place, so that it never passes for a signed literal.
-/

namespace Avr

/-- How a label among operands turns into a number. -/
inductive Reference
  /-- The index or address itself. -/
  | value
  /-- The distance from the slot behind slot `index`. -/
  | offsetFrom (index : Nat)
deriving DecidableEq, Repr

namespace Reference

/-- How the labels of an instruction at slot `index` are read. -/
def ofFlow (flow : Catalog.Flow) (index : Nat) : Reference :=
  match flow with
  | .sequential | .absolute => value
  | .relative => offsetFrom index

def number : Reference → Nat → Int
  | value, target => target
  | offsetFrom index, target => (target : Int) - index - 1

end Reference

/-! ## Names -/

/-- What a name stands for, if anything. -/
def Symbols.meaning? (s : Symbols) (r : Reference) (name : String) : Option Lexeme :=
  match s.find? name with
  | some (.label i) => some (.int (r.number i))
  | some (.constant v) => some (.int v)
  | some (.registerAlias n) => some (.reg n)
  | none => (PseudoFunc.ofName? name).map .func

def resolveRef (s : Symbols) (r : Reference) (t : Token) : Except Diagnostic Token :=
  match t.lexeme with
  | .ref name =>
    match s.meaning? r name with
    | some lexeme => .ok { t with lexeme := lexeme }
    | none => .error (.located t.loc (.resolve (.undefinedSymbol name)))
  | _ => .ok t

def resolveRefs (s : Symbols) (r : Reference) (ts : List Token) : Except Diagnostic (List Token) :=
  ts.mapM (resolveRef s r)

/-! ## Byte selections -/

/-- The tokens before and behind the parenthesis that closes a group, inside which `depth` further groups are
open. -/
def closeGroup? : Nat → List Token → Option (List Token × List Token)
  | _, [] => none
  | depth, t :: ts =>
    if t.isSign .openParen then (closeGroup? (depth + 1) ts).map fun (inner, rest) => (t :: inner, rest)
    else if t.isSign .closeParen then
      match depth with
      | 0 => some ([], ts)
      | depth + 1 => (closeGroup? depth ts).map fun (inner, rest) => (t :: inner, rest)
    else (closeGroup? depth ts).map fun (inner, rest) => (t :: inner, rest)

theorem length_closeGroup? {depth : Nat} {ts inner rest : List Token}
    (h : closeGroup? depth ts = some (inner, rest)) : rest.length < ts.length := by
  induction ts generalizing depth inner with
  | nil => simp [closeGroup?] at h
  | cons t ts ih =>
    have step : ∀ {d : Nat}, (closeGroup? d ts).map (fun (inner, rest) => (t :: inner, rest)) = some (inner, rest) →
        rest.length < (t :: ts).length := by
      intro d hd
      obtain ⟨⟨i, r⟩, hr, he⟩ := Option.map_eq_some_iff.1 hd
      simp only [Prod.mk.injEq] at he
      obtain ⟨-, rfl⟩ := he
      exact Nat.lt_succ_of_lt (ih hr)
    unfold closeGroup? at h
    split at h
    · exact step h
    · split at h
      · split at h
        · simp_all
        · exact step h
      · exact step h

/-- The selected byte of a number, of which the low 16 bits count. -/
def Half.select (half : Half) (v : Int) : Byte :=
  match half with
  | .low => lowByte (BitVec.ofInt 16 v)
  | .high => highByte (BitVec.ofInt 16 v)

/-- The byte that a selection `t` picks from the tokens between its parentheses. -/
def selectByte (t : Token) (half : Half) (inner : List Token) : Except Diagnostic Token :=
  match inner with
  | [] => .error (.located t.loc (.resolve (.malformedByteSelect t.raw)))
  | first :: _ =>
    match Expr.evaluateSingle inner with
    | .ok v => .ok { t with lexeme := .int ((half.select v).toNat : Int) }
    | .error e => .error (.located first.loc (.expression e))

/-- The tokens with every byte selection, up to its closing parenthesis, replaced by the byte. -/
def resolveSelects (ts : List Token) : Except Diagnostic (List Token) :=
  match ts with
  | [] => .ok []
  | t :: ts =>
    match t.lexeme with
    | .select half =>
      let malformed := Diagnostic.located t.loc (.resolve (.malformedByteSelect t.raw))
      match ts with
      | [] => .error malformed
      | u :: us =>
        if u.isSign .openParen then
          match _h : closeGroup? 0 us with
          | none => .error malformed
          | some (inner, rest) => do
            let byte ← selectByte t half inner
            return byte :: (← resolveSelects rest)
        else .error malformed
    | _ => do return t :: (← resolveSelects ts)
termination_by ts.length
decreasing_by
  · have := length_closeGroup? _h
    simp only [List.length_cons]
    omega
  · simp

/-! ## Argument lists -/

/-- The tokens with names, byte selections and expressions replaced by what they come to. -/
def resolveArgs (s : Symbols) (r : Reference) (ts : List Token) : Except Diagnostic (List Token) := do
  Expr.evaluate (← resolveSelects (← resolveRefs s r ts))

end Avr

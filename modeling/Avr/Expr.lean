import Avr.Diagnostic

/-!
# Integer expressions

* `checked`, `BinaryOp.apply` : arithmetic on 64-bit signed integers, with errors for what leaves their range;
* `unary`, `binary`, `operators` : precedence climbing over tokens, computing as it reads;
* `evaluateSingle` : the value of a run of tokens that is one expression;
* `evaluate` : a token list with each maximal run of integers and symbols replaced by its value.

The reader of tokens takes `5-3` for the integers `5` and `-3`. So an integer with a sign of its own that stands
where an operator is due is added to what comes before.
-/

namespace Avr

/-! ## Arithmetic -/

namespace Expr

/-- Whether a number is a 64-bit signed integer. -/
def fits (v : Int) : Bool := decide (-0x8000000000000000 ≤ v) && decide (v < 0x8000000000000000)

/-- A result that must be a 64-bit signed integer. -/
def checked (v : Int) : Except ExprError Int := if fits v then .ok v else .error .overflow

def truth (b : Bool) : Int := if b then 1 else 0

def bitwise (f : BitVec 64 → BitVec 64 → BitVec 64) (a b : Int) : Int :=
  (f (BitVec.ofInt 64 a) (BitVec.ofInt 64 b)).toInt

end Expr

open Avr.Expr in
/-- The value of an operator on two numbers. Division rounds down, and so does a shift to the right. -/
def BinaryOp.apply (o : BinaryOp) (a b : Int) : Except ExprError Int :=
  match o with
  | .mul => checked (a * b)
  | .div => if b = 0 then .error .divisionByZero else checked (a.fdiv b)
  | .add => checked (a + b)
  | .sub => checked (a - b)
  | .shl => if 0 ≤ b ∧ b < 64 then checked (a <<< b.toNat) else .error (.shiftOutOfRange b)
  | .shr => if 0 ≤ b ∧ b < 64 then .ok (a >>> b.toNat) else .error (.shiftOutOfRange b)
  | .lt => .ok (truth (a < b))
  | .gt => .ok (truth (a > b))
  | .le => .ok (truth (a ≤ b))
  | .ge => .ok (truth (a ≥ b))
  | .eq => .ok (truth (a = b))
  | .ne => .ok (truth (a ≠ b))
  | .bitAnd => .ok (bitwise (· &&& ·) a b)
  | .bitXor => .ok (bitwise (· ^^^ ·) a b)
  | .bitOr => .ok (bitwise (· ||| ·) a b)
  | .and => .ok (truth (a ≠ 0 ∧ b ≠ 0))
  | .or => .ok (truth (a ≠ 0 ∨ b ≠ 0))

namespace Expr

/-! ## Reading and computing -/

/-- What stands where an operator is due. -/
inductive Joint
  /-- An operator, which is read. -/
  | op (o : BinaryOp)
  /-- A signed integer, which stays: it is to be added. -/
  | sum
  /-- The end of a group, which stays. -/
  | close

def joint (t : Token) : Except ExprError Joint :=
  match t.lexeme with
  | .int _ => if t.isSignedLiteral then .ok .sum else .error .missingOperator
  | .sign .closeParen => .ok .close
  | .sign (.op o) => .ok (.op o)
  | _ => .error (.unexpectedToken t.raw)

/-- A value and the tokens behind it, of which there are fewer than before. -/
abbrev Reading (ts : List Token) := Except ExprError (Int × { rest : List Token // rest.length < ts.length })

mutual

/-- Reads an operand: a number, a group in parentheses, or an operand with an operator in front. -/
def unary (ts : List Token) : Reading ts :=
  match ts with
  | [] => .error .missingOperand
  | t :: ts =>
    match t.lexeme with
    | .int v => .ok (v, ⟨ts, Nat.lt_succ_self _⟩)
    | .sign .openParen => do
      let (v, ⟨rest, h⟩) ← binary 1 ts
      match rest, h with
      | u :: rest, h =>
        if u.isSign .closeParen then
          return (v, ⟨rest, by simp only [List.length_cons] at h ⊢; omega⟩)
        else throw .unbalancedParens
      | [], _ => throw .unbalancedParens
    | .sign .bang => do
      let (v, ⟨rest, h⟩) ← unary ts
      return (truth (v = 0), ⟨rest, Nat.lt_succ_of_lt h⟩)
    | .sign .tilde => do
      let (v, ⟨rest, h⟩) ← unary ts
      return (-v - 1, ⟨rest, Nat.lt_succ_of_lt h⟩)
    | .sign (.op .sub) => do
      let (v, ⟨rest, h⟩) ← unary ts
      return (← checked (-v), ⟨rest, Nat.lt_succ_of_lt h⟩)
    | .sign (.op .add) => do
      let (v, ⟨rest, h⟩) ← unary ts
      return (v, ⟨rest, Nat.lt_succ_of_lt h⟩)
    | .sign .closeParen => .error .unbalancedParens
    | _ => .error .missingOperand
termination_by (ts.length, 0)

/-- Reads an operand and the operators behind it that bind at least as tightly as `level`. -/
def binary (level : Nat) (ts : List Token) : Reading ts := do
  let (v, ⟨rest, h⟩) ← unary ts
  let (w, ⟨rest', h'⟩) ← operators level v rest
  return (w, ⟨rest', Nat.lt_of_le_of_lt h' h⟩)
termination_by (ts.length, 1)

/-- Applies the operators at the start of `ts` that bind at least as tightly as `level`, beginning with `left`. -/
def operators (level : Nat) (left : Int) (ts : List Token) :
    Except ExprError (Int × { rest : List Token // rest.length ≤ ts.length }) :=
  match ts with
  | [] => .ok (left, ⟨[], Nat.le_refl _⟩)
  | t :: ts => do
    match ← joint t with
    | .close => return (left, ⟨t :: ts, Nat.le_refl _⟩)
    | .sum =>
      if BinaryOp.add.precedence < level then return (left, ⟨t :: ts, Nat.le_refl _⟩)
      else
        let (right, ⟨rest, h⟩) ← binary (BinaryOp.add.precedence + 1) (t :: ts)
        let v ← BinaryOp.add.apply left right
        let (w, ⟨rest', h'⟩) ← operators level v rest
        return (w, ⟨rest', by omega⟩)
    | .op o =>
      if o.precedence < level then return (left, ⟨t :: ts, Nat.le_refl _⟩)
      else
        let (right, ⟨rest, h⟩) ← binary (o.precedence + 1) ts
        let v ← o.apply left right
        let (w, ⟨rest', h'⟩) ← operators level v rest
        return (w, ⟨rest', by simp only [List.length_cons]; omega⟩)
termination_by (ts.length, 2)

end

/-- The value of tokens that are one expression. -/
def evaluateSingle (ts : List Token) : Except ExprError Int := do
  match ← binary 1 ts with
  | (v, ⟨[], _⟩) => return v
  | (_, ⟨t :: _, _⟩) => throw (if t.isSign .closeParen then .unbalancedParens else .unexpectedToken t.raw)

/-! ## Runs in a token list -/

/-- Whether a token is part of expressions: an integer or a symbol. -/
def inAlphabet (t : Token) : Bool := t.kind == .int || t.kind == .math

/-- The one integer that a run starting with `t` comes to. A run of one integer stays as it is. -/
def collapse (t : Token) (ts : List Token) : Except Diagnostic Token :=
  if ts.isEmpty ∧ t.kind = .int then .ok t
  else match evaluateSingle (t :: ts) with
    | .ok v => .ok (.ofInt v t.loc)
    | .error e => .error (.located t.loc (.expression e))

/-- The tokens with each maximal run of integers and symbols replaced by the integer it comes to, at the place
where the run starts. -/
def evaluate : List Token → Except Diagnostic (List Token)
  | [] => .ok []
  | t :: ts =>
    if inAlphabet t then do
      let v ← collapse t (ts.takeWhile inAlphabet)
      return v :: (← evaluate (ts.dropWhile inAlphabet))
    else do return t :: (← evaluate ts)
termination_by ts => ts.length
decreasing_by
  · exact Nat.lt_succ_of_le (List.dropWhile_sublist _).length_le
  · exact Nat.lt_succ_self _

end Expr

end Avr

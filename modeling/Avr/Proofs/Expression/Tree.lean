import Avr.Expr
import Mathlib.Data.Int.Bitwise

/-!
# Expression trees and how they are written

* `Tree` : expressions over 64-bit literals; `Tree.value` : their value over unbounded integers;
* `Tree.nodes` : the nodes, operands before the operator and left before right; `Tree.fault?` : what is wrong at a
  node; `Tree.outcome` : the first fault in that order, or the value;
* `Written` : the token runs that spell a tree where a given binding strength is due; parentheses may be added, and
  a signed literal behind an operand stands for a sum;
* `Tree.write` : the run with parentheses only where the tree differs from what precedence and order give.
-/

namespace Avr.Expr

/-! ## Trees -/

inductive UnaryOp
  | not | complement | negate | plus
deriving DecidableEq, Repr

namespace UnaryOp

def sign : UnaryOp → Sign
  | not => .bang
  | complement => .tilde
  | negate => .op .sub
  | plus => .op .add

def value : UnaryOp → Int → Int
  | not, v => truth (v = 0)
  | complement, v => Int.lnot v
  | negate, v => -v
  | plus, v => v

end UnaryOp

abbrev Literal := { v : Int // fits v = true }

/-- Expressions over 64-bit literals. -/
inductive Tree
  | lit (v : Literal)
  | unary (o : UnaryOp) (e : Tree)
  | binary (o : BinaryOp) (l r : Tree)

end Expr

open Avr.Expr in
/-- The value of an operator over unbounded integers: quotients are rounded down, shifts multiply and divide by a
power of two, and bitwise operators work on infinite two's complement. -/
def BinaryOp.value (o : BinaryOp) (a b : Int) : Int :=
  match o with
  | .mul => a * b
  | .div => a.fdiv b
  | .add => a + b
  | .sub => a - b
  | .shl => a * 2 ^ b.toNat
  | .shr => a.fdiv (2 ^ b.toNat)
  | .lt => truth (a < b)
  | .gt => truth (b < a)
  | .le => truth (a ≤ b)
  | .ge => truth (b ≤ a)
  | .eq => truth (a = b)
  | .ne => truth (a ≠ b)
  | .bitAnd => Int.land a b
  | .bitXor => Int.xor a b
  | .bitOr => Int.lor a b
  | .and => truth (a ≠ 0 ∧ b ≠ 0)
  | .or => truth (a ≠ 0 ∨ b ≠ 0)

namespace Expr

def overflow? (v : Int) : Option ExprError := if fits v then none else some .overflow

end Expr

open Avr.Expr in
/-- What is wrong with an operator on two numbers: a zero divisor, a shift by more than 63 or by less than zero, or
a value of more than 64 bits. -/
def BinaryOp.fault? (o : BinaryOp) (a b : Int) : Option ExprError :=
  match o with
  | .div => if b = 0 then some .divisionByZero else overflow? (o.value a b)
  | .shl | .shr => if 0 ≤ b ∧ b ≤ 63 then overflow? (o.value a b) else some (.shiftOutOfRange b)
  | _ => overflow? (o.value a b)

namespace Expr

namespace Tree

def value : Tree → Int
  | lit v => v.1
  | unary o e => o.value e.value
  | binary o l r => o.value l.value r.value

/-- The nodes from left to right, operands before their operator. -/
def nodes : Tree → List Tree
  | lit v => [lit v]
  | unary o e => e.nodes ++ [unary o e]
  | binary o l r => l.nodes ++ r.nodes ++ [binary o l r]

/-- What is wrong at the node on top, operands taken for granted. -/
def fault? : Tree → Option ExprError
  | lit _ => none
  | unary o e => overflow? (o.value e.value)
  | binary o l r => o.fault? l.value r.value

/-- The fault of the first node that has one, else the value. -/
def outcome (e : Tree) : Except ExprError Int :=
  match e.nodes.findSome? fault? with
  | some err => .error err
  | none => .ok e.value

theorem outcome_eq_ok_iff (e : Tree) (v : Int) :
    e.outcome = .ok v ↔ (∀ n ∈ e.nodes, n.fault? = none) ∧ v = e.value := by
  unfold outcome
  cases h : e.nodes.findSome? fault? with
  | some err =>
    obtain ⟨n, hn, hf⟩ := List.exists_of_findSome?_eq_some h
    simp only [reduceCtorEq, false_iff, not_and]
    intro hall
    simp [hall n hn] at hf
  | none =>
    rw [List.findSome?_eq_none_iff] at h
    simp only [Except.ok.injEq]
    exact ⟨fun hv => ⟨h, hv.symm⟩, fun hv => hv.2.symm⟩

theorem outcome_eq_error_iff (e : Tree) (err : ExprError) :
    e.outcome = .error err ↔ e.nodes.findSome? fault? = some err := by
  unfold outcome
  cases e.nodes.findSome? fault? <;> simp

theorem outcome_unary_node (o : UnaryOp) (e : Tree) :
    (unary o e).outcome = e.outcome.bind fun v =>
      match overflow? (o.value v) with
      | some err => .error err
      | none => .ok (o.value v) := by
  unfold outcome
  rw [nodes, List.findSome?_append]
  cases h : e.nodes.findSome? fault? with
  | some err => simp [Except.bind]
  | none => cases ho : overflow? (o.value e.value) <;> simp [Except.bind, fault?, ho, value]

theorem outcome_binary_node (o : BinaryOp) (l r : Tree) :
    (binary o l r).outcome = l.outcome.bind fun a => r.outcome.bind fun b =>
      match o.fault? a b with
      | some err => .error err
      | none => .ok (o.value a b) := by
  unfold outcome
  rw [nodes, List.findSome?_append, List.findSome?_append]
  cases hl : l.nodes.findSome? fault? with
  | some err => simp [Except.bind]
  | none =>
    cases hr : r.nodes.findSome? fault? with
    | some err => simp [Except.bind]
    | none => cases ho : o.fault? l.value r.value <;> simp [Except.bind, fault?, ho, value]

end Tree

/-! ## Written form -/

/-- The binding strength of what stands behind an operator in front: above that of all operators between. -/
def tightest : Nat := 11

/-- The token runs that spell a tree where operators must bind at least as tightly as a level. -/
inductive Written : Nat → Tree → List Token → Prop
  | lit {level : Nat} {t : Token} {v : Literal} (ht : t.lexeme = .int v.1) : Written level (.lit v) [t]
  | group {level : Nat} {e : Tree} {t u : Token} {ts : List Token} (ht : t.lexeme = .sign .openParen)
      (he : Written 1 e ts) (hu : u.lexeme = .sign .closeParen) : Written level e (t :: (ts ++ [u]))
  | unary {level : Nat} {o : UnaryOp} {e : Tree} {t : Token} {ts : List Token} (ht : t.lexeme = .sign o.sign)
      (he : Written tightest e ts) : Written level (.unary o e) (t :: ts)
  | binary {level : Nat} {o : BinaryOp} {l r : Tree} {t : Token} {ts us : List Token}
      (hlevel : level ≤ o.precedence) (hl : Written o.precedence l ts) (ht : t.lexeme = .sign (.op o))
      (hr : Written (o.precedence + 1) r us) : Written level (.binary o l r) (ts ++ t :: us)
  /-- A signed literal behind an operand, and what binds to it more tightly than a sum, is added to it. -/
  | sum {level : Nat} {l r : Tree} {t : Token} {ts us : List Token} (hlevel : level ≤ BinaryOp.add.precedence)
      (hl : Written BinaryOp.add.precedence l ts) (ht : t.isSignedLiteral = true)
      (hr : Written (BinaryOp.add.precedence + 1) r (t :: us)) : Written level (.binary .add l r) (ts ++ t :: us)

theorem precedence_lt_tightest (o : BinaryOp) : o.precedence < tightest := by cases o <;> decide

theorem one_le_precedence (o : BinaryOp) : 1 ≤ o.precedence := by cases o <;> decide

/-- What may stand where a tight operand is due may stand where a loose one is. -/
theorem Written.mono {k level : Nat} {e : Tree} {ts : List Token} (h : Written level e ts) (hk : k ≤ level) :
    Written k e ts := by
  cases h with
  | lit ht => exact .lit ht
  | group ht he hu => exact .group ht he hu
  | unary ht he => exact .unary ht he
  | binary hlevel hl ht hr => exact .binary (Nat.le_trans hk hlevel) hl ht hr
  | sum hlevel hl ht hr => exact .sum (Nat.le_trans hk hlevel) hl ht hr

def signToken (loc : Loc) (g : Sign) : Token := ⟨.sign g, g.text, loc⟩

/-- The tokens of a tree where operators must bind at least as tightly as `level`: an operator that does not is put
in parentheses. All tokens are given the same place. -/
def Tree.write (loc : Loc) : Nat → Tree → List Token
  | _, .lit v => [Token.ofInt v.1 loc]
  | _, .unary o e => signToken loc o.sign :: e.write loc tightest
  | level, .binary o l r =>
    let ts := l.write loc o.precedence ++ signToken loc (.op o) :: r.write loc (o.precedence + 1)
    if level ≤ o.precedence then ts else signToken loc .openParen :: (ts ++ [signToken loc .closeParen])

theorem written_write (loc : Loc) (level : Nat) (e : Tree) : Written level e (e.write loc level) := by
  induction e generalizing level with
  | lit v => exact .lit rfl
  | unary o e ih => exact .unary rfl (ih tightest)
  | binary o l r ihl ihr =>
    unfold Tree.write
    dsimp only
    split
    · next h => exact .binary h (ihl _) rfl (ihr _)
    · exact .group rfl (.binary (one_le_precedence o) (ihl _) rfl (ihr _)) rfl

end Expr

end Avr

/-!
# Operators of expressions

* `BinaryOp` : the two-place operators with their precedence;
* `Sign` : every operator symbol and parenthesis that source text may hold;
* `Sign.ofText?`, `Sign.text` : a symbol and its written form.
-/

namespace Avr

/-- The operators between two operands. -/
inductive BinaryOp
  | mul | div | add | sub | shl | shr | lt | gt | le | ge | eq | ne | bitAnd | bitXor | bitOr | and | or
deriving DecidableEq, Repr

namespace BinaryOp

/-- How tightly the operator binds; a higher number binds first. Prefix operators bind above all of these. -/
def precedence : BinaryOp → Nat
  | mul | div => 10
  | add | sub => 9
  | shl | shr => 8
  | lt | gt | le | ge => 7
  | eq | ne => 6
  | bitAnd => 5
  | bitXor => 4
  | bitOr => 3
  | and => 2
  | or => 1

def text : BinaryOp → String
  | mul => "*"
  | div => "/"
  | add => "+"
  | sub => "-"
  | shl => "<<"
  | shr => ">>"
  | lt => "<"
  | gt => ">"
  | le => "<="
  | ge => ">="
  | eq => "=="
  | ne => "!="
  | bitAnd => "&"
  | bitXor => "^"
  | bitOr => "|"
  | and => "&&"
  | or => "||"

def all : List BinaryOp :=
  [mul, div, add, sub, shl, shr, lt, gt, le, ge, eq, ne, bitAnd, bitXor, bitOr, and, or]

end BinaryOp

/-- The symbols of expressions. -/
inductive Sign
  | op (o : BinaryOp)
  /-- The logical negation. -/
  | bang
  /-- The bitwise complement. -/
  | tilde
  | openParen
  | closeParen
deriving DecidableEq, Repr

namespace Sign

def text : Sign → String
  | op o => o.text
  | bang => "!"
  | tilde => "~"
  | openParen => "("
  | closeParen => ")"

def all : List Sign := BinaryOp.all.map op ++ [bang, tilde, openParen, closeParen]

def ofText? (s : String) : Option Sign := all.find? fun g => g.text == s

end Sign

end Avr

import Avr.Text.WhiteSpace
import Avr.Text.WordChar
import Avr.Token

/-!
# Patterns of tokens

* `Pattern` : how many characters a token takes at the start of a text, if it starts there;
* `patterns` : the patterns in order of precedence, with the class of token each stands for;
* `firstMatch?` : the first pattern that matches.

A pattern that ends in a letter or digit wants the word to end there: `endsWord` of what follows. Since it takes
every character of its last run, no shorter match could end at the end of a word either.
-/

namespace Avr.Lexer

open Text

/-- The number of characters that a token takes at the start of a text, if it starts there. -/
abbrev Pattern := List Char → Option Nat

/-! ## Building blocks -/

/-- The length of the run of characters of a sort at the start. -/
def run (p : Char → Bool) (cs : List Char) : Nat := (cs.takeWhile p).length

def nonEmpty (n : Nat) : Option Nat := if n = 0 then none else some n

/-- A match of `n` characters, if a word ends behind them. -/
def word (n : Nat) (cs : List Char) : Option Nat := if endsWord (cs.drop n) then some n else none

def isLetter (c : Char) : Bool := c.isAlpha

def isHexDigit (c : Char) : Bool := ('0' ≤ c && c ≤ '9') || ('a' ≤ c && c ≤ 'f') || ('A' ≤ c && c ≤ 'F')

def isOctalDigit (c : Char) : Bool := '0' ≤ c && c ≤ '7'

def isBinaryDigit (c : Char) : Bool := c == '0' || c == '1'

def isPointerLetter (c : Char) : Bool := c == 'X' || c == 'Y' || c == 'Z'

/-! ## Patterns -/

/-- A comment: a semicolon and the rest of the line. -/
def comment : Pattern
  | ';' :: cs => some (cs.length + 1)
  | _ => none

def blanks : Pattern := fun cs => nonEmpty (run isWhiteSpace cs)

/-- A label: a letter or underscore, then word characters and dots, then a colon. -/
def label : Pattern
  | c :: cs =>
    let n := run (fun d => isWordChar d || d == '.') cs
    if (isLetter c || c == '_') && (cs.drop n).head? == some ':' then some (n + 2) else none
  | [] => none

def keyword (lower upper : List Char) : Pattern := fun cs =>
  if lower.isPrefixOf cs || upper.isPrefixOf cs then word lower.length cs else none

/-- A register: the letter R in either case and digits. -/
def register : Pattern
  | c :: cs =>
    let n := run isDecimalDigit cs
    if (c == 'r' || c == 'R') && n != 0 then word (n + 1) (c :: cs) else none
  | [] => none

def signLength : List Char → Nat
  | '-' :: _ => 1
  | _ => 0

/-- The length of the mark of a radix, and the digits of the radix. -/
def radixMark? : List Char → Option (Nat × (Char → Bool))
  | '0' :: 'x' :: _ | '0' :: 'X' :: _ => some (2, isHexDigit)
  | '$' :: _ => some (1, isHexDigit)
  | '0' :: 'o' :: _ | '0' :: 'O' :: _ => some (2, isOctalDigit)
  | '0' :: 'b' :: _ | '0' :: 'B' :: _ => some (2, isBinaryDigit)
  | _ => none

/-- An integer with a mark of its radix, possibly with a minus sign. -/
def markedInteger : Pattern := fun cs =>
  let s := signLength cs
  match radixMark? (cs.drop s) with
  | some (m, isDigit) =>
    let n := run isDigit (cs.drop (s + m))
    if n = 0 then none else word (s + m + n) cs
  | none => none

def decimalInteger : Pattern := fun cs =>
  let s := signLength cs
  let n := run isDecimalDigit (cs.drop s)
  if n = 0 then none else word (s + n) cs

/-- A word that may be a mnemonic: two to six letters. -/
def mnemonic : Pattern := fun cs =>
  let n := run isLetter cs
  if 2 ≤ n ∧ n ≤ 6 then word n cs else none

/-- The number of characters up to and including the next bare quote. A backslash guards the character behind
it. -/
def closing (quote : Char) : List Char → Option Nat
  | [] => none
  | c :: cs =>
    if c = quote then some 1
    else if c = '\\' then
      match cs with
      | [] => none
      | _ :: cs => (closing quote cs).map (· + 2)
    else (closing quote cs).map (· + 1)

def str (quote : Char) : Pattern
  | c :: cs => if c = quote then (closing quote cs).map (· + 1) else none
  | [] => none

/-- A directive: a dot and what follows up to a dot, comma or white space. -/
def directive : Pattern
  | '.' :: cs => (nonEmpty (run (fun c => !(c == '.' || c == ',' || isWhiteSpace c)) cs)).map (· + 1)
  | _ => none

/-- Y or Z with a displacement of one or two digits. -/
def displaced : Pattern
  | c :: '+' :: cs =>
    let n := run isDecimalDigit cs
    if (c == 'Y' || c == 'Z') && (n == 1 || n == 2) then word (n + 2) (c :: '+' :: cs) else none
  | _ => none

def incremented : Pattern
  | c :: '+' :: _ => if isPointerLetter c then some 2 else none
  | _ => none

def decremented : Pattern
  | '-' :: c :: cs => if isPointerLetter c then word 2 ('-' :: c :: cs) else none
  | _ => none

def pointer : Pattern
  | c :: cs => if isPointerLetter c then word 1 (c :: cs) else none
  | [] => none

def comma : Pattern
  | ',' :: _ => some 1
  | _ => none

def isSignText (cs : List Char) : Bool := (Sign.ofText? (String.ofList cs)).isSome

/-- An operator symbol, the longer one if there are two. -/
def sign : Pattern
  | c :: d :: _ => if isSignText [c, d] then some 2 else if isSignText [c] then some 1 else none
  | [c] => if isSignText [c] then some 1 else none
  | [] => none

/-- A character that is neither part of a word nor white space. -/
def symbol : Pattern
  | c :: _ => if isWordChar c || isWhiteSpace c then none else some 1
  | [] => none

/-- A name: anything but white space or a digit, then word characters. -/
def name : Pattern
  | c :: cs => if isWhiteSpace c || isDecimalDigit c then none else some (run isWordChar cs + 1)
  | [] => none

/-! ## The table -/

/-- The patterns in order of precedence, with the class of token; comments and white space are no tokens. -/
def patterns : List (Option Kind × Pattern) := [
  (none, comment),
  (none, blanks),
  (some .label, label),
  (some .lo8, keyword ['l', 'o', '8'] ['L', 'O', '8']),
  (some .hi8, keyword ['h', 'i', '8'] ['H', 'I', '8']),
  (some .reg, register),
  (some .int, markedInteger),
  (some .int, decimalInteger),
  (some .inst, mnemonic),
  (some .str, str '\x22'),
  (some .str, str '\x27'),
  (some .dir, directive),
  (some .wordPlusQ, displaced),
  (some .wordPlus, incremented),
  (some .minusWord, decremented),
  (some .word, pointer),
  (some .comma, comma),
  (some .math, sign),
  (some .symbol, symbol),
  (some .ref, name)]

/-- The first pattern that matches: its class of token and the number of characters it takes. -/
def firstMatch? (cs : List Char) : Option (Option Kind × Nat) :=
  patterns.findSome? fun (kind, pattern) => (pattern cs).map (kind, ·)

end Avr.Lexer

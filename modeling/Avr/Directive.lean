import Avr.Text.Case

/-!
# Directives

* `Directive` : the statements that start with a dot;
* `Directive.ofText?` : the directive a text names, in either case, and `Directive.name` its written form;
* `unescape?` : the byte that a letter after a backslash stands for.
-/

namespace Avr

/-- The statements that steer the assembler. -/
inductive Directive
  | header | finish | text | data | global | byte | word | string | ascii | asciz | space | equ | assign
  | registerAlias
deriving DecidableEq, Repr

namespace Directive

def all : List Directive :=
  [header, finish, text, data, global, byte, word, string, ascii, asciz, space, equ, assign, registerAlias]

def name : Directive → String
  | header => ".SECTION"
  | finish => ".END"
  | text => ".TEXT"
  | data => ".DATA"
  | global => ".GLOBAL"
  | byte => ".BYTE"
  | word => ".WORD"
  | string => ".STRING"
  | ascii => ".ASCII"
  | asciz => ".ASCIZ"
  | space => ".SPACE"
  | equ => ".EQU"
  | assign => ".SET"
  | registerAlias => ".DEF"

/-- The directive that a text names, its dot included, letters in either case. -/
def ofText? (s : String) : Option Directive := all.find? fun d => d.name == Text.upper s

end Directive

/-- The byte that a character stands for after a backslash. -/
def unescape? : Char → Option (BitVec 8)
  | '\\' => some 0x5C
  | 'n' => some 0x0A
  | 't' => some 0x09
  | '\x22' => some 0x22
  | '\x27' => some 0x27
  | 'r' => some 0x0D
  | 'a' => some 0x07
  | 'b' => some 0x08
  | 'f' => some 0x0C
  | 'v' => some 0x0B
  | '0' => some 0x00
  | _ => none

end Avr

/-!
# Numbers in fixed columns

* `hex` : hexadecimal digits, upper case, filled with zeros to a width;
* `hexByte` : the two lower-case digits of dumps;
* `padLeft`, `padRight` : fill a text with blanks to a width.
-/

namespace Avr.Text

/-- The text filled in front with `fill` up to `width` characters. -/
def fillLeft (fill : Char) (width : Nat) (s : String) : String :=
  String.ofList (List.replicate (width - s.length) fill) ++ s

def padLeft (width : Nat) (s : String) : String := fillLeft ' ' width s

def padRight (width : Nat) (s : String) : String :=
  s ++ String.ofList (List.replicate (width - s.length) ' ')

/-- Upper-case hexadecimal digits, at least `width` of them. -/
def hex (width n : Nat) : String :=
  fillLeft '0' width (String.ofList ((Nat.toDigits 16 n).map Char.toUpper))

/-- An address: `0x` and at least four digits. -/
def hexAddress (n : Nat) : String := "0x" ++ hex 4 n

def hexByte (n : Nat) : String := fillLeft '0' 2 (String.ofList (Nat.toDigits 16 n))

end Avr.Text

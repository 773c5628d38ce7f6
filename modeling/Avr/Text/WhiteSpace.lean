import Avr.Text.Ranges

/-!
# White space

* `isWhiteSpace` : the characters with the Unicode property White_Space;
* `trim` : a text without the white space at both ends;
* `firstPiece` : the first piece of a text cut at white space.
-/

namespace Avr.Text

/-- The code points with the property White_Space. -/
def whiteSpaceRanges : List (Nat × Nat) := [
  (0x9, 0xD), (0x20, 0x20), (0x85, 0x85), (0xA0, 0xA0), (0x1680, 0x1680), (0x2000, 0x200A),
  (0x2028, 0x2029), (0x202F, 0x202F), (0x205F, 0x205F), (0x3000, 0x3000)]

def isWhiteSpace (c : Char) : Bool := inRanges whiteSpaceRanges c.toNat

/-- The characters up to the next white space, after skipping the white space in front. -/
def firstPiece (cs : List Char) : List Char :=
  (cs.dropWhile isWhiteSpace).takeWhile (!isWhiteSpace ·)

def trim (cs : List Char) : List Char :=
  ((cs.dropWhile isWhiteSpace).reverse.dropWhile isWhiteSpace).reverse

end Avr.Text

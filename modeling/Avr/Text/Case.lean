/-!
# Letters without case

`upper`, `lower` : a text with its ASCII letters in one case. Other characters stay.
-/

namespace Avr.Text

def upper (s : String) : String := String.ofList (s.toList.map Char.toUpper)

def lower (s : String) : String := String.ofList (s.toList.map Char.toLower)

/-- Whether two texts are equal but for the case of ASCII letters. -/
def sameLetters (s t : String) : Bool := lower s == lower t

end Avr.Text

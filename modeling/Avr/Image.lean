import Avr.Encoding
import Avr.Token.Lexer

/-!
# Images

* `Image` : the memories that a machine starts with;
* `Layout.image` : the image of a layout whose operands are resolved;
* `assemble` : the image of a source text.
-/

namespace Avr

/-- The memories that a machine starts with, and what is known of the program. -/
structure Image where
  program : Array Slot
  /-- Data memory, zero behind the assembled data. -/
  data : Vector Byte ramSize
  /-- The slot to stop at. -/
  breakpoint : Option Nat
  symbols : Symbols
  /-- The number of slots that assembled code takes. -/
  codeLength : Nat
  /-- The address behind the assembled data. -/
  dataEnd : Nat

/-- The slot of a statement, or the second word of the one before. -/
def slotOf : Option Statement → Except Diagnostic Slot
  | some s => do return .inst (← s.instruction)
  | none => .ok .continuation

/-- Slots filled up to the size of flash. -/
def filled (slots : Array Slot) : Array Slot := slots ++ Array.replicate (flashSize - slots.size) (.inst .nop)

def Layout.image (l : Layout) : Except Diagnostic Image := do
  let slots ← l.slots.toList.mapM slotOf
  return {
    program := filled slots.toArray
    data := Vector.ofFn fun i => l.bytes[i.val]?.getD 0
    breakpoint := l.breakpoint
    symbols := l.symbols
    codeLength := slots.length
    dataEnd := l.bytes.size }

/-- The image of a source text. The machine stops at the first instruction on or behind the breakpoint line. -/
def assemble (source : String) (breakpointLine : Option Nat) : Except Diagnostic Image := do
  (← (← layout (← tokenize source) breakpointLine).resolve).image

end Avr

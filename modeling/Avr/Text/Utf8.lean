/-!
# Bytes as text

* `latin1` : every byte as the character of that code;
* `decodeUtf8` : the text that the bytes encode; each longest start of a character that goes wrong is shown as
  U+FFFD.
-/

namespace Avr.Text

/-- Every byte as the character of that code. -/
def latin1 (bytes : List (BitVec 8)) : List Char := bytes.map fun b => Char.ofNat b.toNat

/-- For the first byte of a longer character: the bits it carries, how many bytes follow, and the range that
the next byte must lie in. -/
def leadByte? (b : Nat) : Option (Nat × Nat × Nat × Nat) :=
  if 0xC2 ≤ b ∧ b ≤ 0xDF then some (b - 0xC0, 1, 0x80, 0xBF)
  else if b = 0xE0 then some (0, 2, 0xA0, 0xBF)
  else if b = 0xED then some (0xD, 2, 0x80, 0x9F)
  else if 0xE1 ≤ b ∧ b ≤ 0xEF then some (b - 0xE0, 2, 0x80, 0xBF)
  else if b = 0xF0 then some (0, 3, 0x90, 0xBF)
  else if b = 0xF4 then some (4, 3, 0x80, 0x8F)
  else if 0xF1 ≤ b ∧ b ≤ 0xF3 then some (b - 0xF0, 3, 0x80, 0xBF)
  else none

/-- A character of which some bytes have been read: their bits, how many bytes are missing, and the range of
the next. -/
structure Pending where
  bits : Nat
  missing : Nat
  low : Nat
  high : Nat

/-- Starts a character with byte `b`, after the characters `done` (last first). -/
def startChar (done : List Char) (b : Nat) : List Char × Option Pending :=
  if b < 0x80 then (Char.ofNat b :: done, none)
  else match leadByte? b with
    | some (bits, missing, low, high) => (done, some ⟨bits, missing, low, high⟩)
    | none => ('\ufffd' :: done, none)

def decodeByte : List Char × Option Pending → Nat → List Char × Option Pending
  | (done, none), b => startChar done b
  | (done, some p), b =>
    if p.low ≤ b ∧ b ≤ p.high then
      let bits := p.bits * 64 + b % 64
      if p.missing = 1 then (Char.ofNat bits :: done, none)
      else (done, some ⟨bits, p.missing - 1, 0x80, 0xBF⟩)
    else startChar ('\ufffd' :: done) b

/-- The text that the bytes encode, with U+FFFD for what is no character. -/
def decodeUtf8 (bytes : List (BitVec 8)) : List Char :=
  match bytes.foldl (fun s b => decodeByte s b.toNat) ([], none) with
  | (done, none) => done.reverse
  | (done, some _) => ('\ufffd' :: done).reverse

def encodeUtf8 (s : String) : List (BitVec 8) := s.toUTF8.toList.map UInt8.toBitVec

end Avr.Text

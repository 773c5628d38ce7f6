import Avr.Image
import Avr.Text.Hex

/-!
# Listings

* `Image.listing` : one line per instruction of the assembled code: slot, opcode words, written form;
* `Image.dataDump` : the assembled data, sixteen bytes a row.
-/

namespace Avr

def Instruction.listingLine (i : Instruction) (index : Nat) : String :=
  let words := " ".intercalate (i.words.map fun w => Text.hex 4 w.toNat)
  Text.hexAddress index ++ "  " ++ Text.padRight 9 words ++ "  " ++ i.text ++ "\n"

def Image.listing (image : Image) : String :=
  String.join ((image.program.toList.take image.codeLength).zipIdx.filterMap fun (slot, index) =>
    slot.inst?.map fun i => i.listingLine index)

def Image.dataDump (image : Image) : String :=
  let data := (image.data.toList.take image.dataEnd).drop ramStart
  String.join ((sixteens data).zipIdx.map fun (bytes, row) =>
    Text.hexAddress (ramStart + 16 * row) ++ "  " ++ " ".intercalate (bytes.map fun b => Text.hex 2 b.toNat) ++ "\n")

end Avr

import Avr.Listing
import Avr.Memory
import Avr.Proofs.Layout.Source

/-!
# Images written back as sources

* `Image.entryIndex` : the slot where the machine starts, as the reserved cells tell it;
* `shownBytes` : the bytes that the rows of a data dump show;
* `Image.codeTexts` : the instructions of the assembled code, and the label where the machine starts;
* `Image.rewritten` : a source of both;
* `toList_rewritten` : its lines are those of a source of bytes and instructions.
-/

namespace Avr

open Lexer Text

/-! ## The source of an image -/

def Image.entryIndex (image : Image) : Nat := (({ cells := image.data } : Memory).readPair entryLowCell).toNat

/-- The bytes that the rows of a data dump show, behind the address and two blanks. -/
def shownBytes (dump : String) : List (List String) :=
  (lines dump.toList).map fun row => ((row.splitOn ' ').drop 2).map String.ofList

def shownLine (row : List String) : String := ".byte " ++ ", ".intercalate (row.map ("0x" ++ ·))

/-- What is written for a slot: its instruction, behind the label if the machine starts there. -/
def slotTexts (entry : Nat) : Slot × Nat → List String
  | (.inst i, index) => if index = entry then ["main:", i.text] else [i.text]
  | (.continuation, _) => []

/-- The instructions of the assembled code in order, with the label where the machine starts. -/
def Image.codeTexts (image : Image) : List String :=
  (image.program.toList.take image.codeLength).zipIdx.flatMap (slotTexts image.entryIndex) ++
    if image.entryIndex = image.codeLength then ["main:"] else []

def Image.rewrittenLines (image : Image) : List String :=
  (".section .data" :: (shownBytes image.dataDump).map shownLine) ++
    ".section .text" :: ".global main" :: (image.codeTexts ++ [".end"])

/-- A source of the data and the code of an image. -/
def Image.rewritten (image : Image) : String := String.join (image.rewrittenLines.map (· ++ "\n"))

/-! ## Data -/

theorem isHexDigit_of_mem_toDigits {n : Nat} {c : Char} (h : c ∈ Nat.toDigits 16 n) :
    isHexDigit c.toUpper = true := by
  have hdigit : ∀ k < 16, isHexDigit (Nat.digitChar k).toUpper = true := by decide
  induction n using Nat.strongRecOn with
  | ind n ih =>
    rw [Nat.toDigits_eq_if (by decide)] at h
    split at h
    · next hn =>
      rw [List.mem_singleton.1 h]
      exact hdigit n hn
    · next hn =>
      rcases List.mem_append.1 h with h | h
      · exact ih (n / 16) (by omega) h
      · rw [List.mem_singleton.1 h]
        exact hdigit (n % 16) (Nat.mod_lt n (by decide))

theorem isHexDigit_of_mem_hex {width n : Nat} {c : Char} (h : c ∈ (hex width n).toList) : isHexDigit c = true := by
  rw [hex, fillLeft, String.toList_append, String.toList_ofList, String.toList_ofList, List.mem_append] at h
  rcases h with h | h
  · rw [(List.mem_replicate.1 h).2]
    rfl
  · obtain ⟨d, hd, rfl⟩ := List.mem_map.1 h
    exact isHexDigit_of_mem_toDigits hd

theorem not_mem_hex {width n : Nat} {c : Char} (hc : isHexDigit c = false) : c ∉ (hex width n).toList := by
  intro h
  rw [isHexDigit_of_mem_hex h] at hc
  cases hc

theorem not_mem_hexAddress {n : Nat} {c : Char} (hc : isHexDigit c = false) (hx : c ≠ 'x') :
    c ∉ (hexAddress n).toList := by
  have htext : (hexAddress n).toList = '0' :: 'x' :: (hex 4 n).toList := by
    rw [hexAddress, String.toList_append]
    rfl
  rw [htext, List.mem_cons, List.mem_cons, not_or, not_or]
  refine ⟨?_, hx, not_mem_hex hc⟩
  rintro rfl
  cases hc

/-- The row of a dump at an address, without its line feed. -/
def dumpRow (a : Nat) (row : List Byte) : List Char :=
  [' '].intercalate ((hexAddress a).toList :: [] :: row.map fun b => (hex 2 b.toNat).toList)

theorem splitOn_dumpRow (a : Nat) (row : List Byte) :
    (dumpRow a row).splitOn ' ' = (hexAddress a).toList :: [] :: row.map fun b => (hex 2 b.toNat).toList := by
  refine List.splitOn_intercalate ' ' ?_ (List.cons_ne_nil _ _)
  rw [List.forall_mem_cons, List.forall_mem_cons]
  refine ⟨not_mem_hexAddress rfl (by decide), List.not_mem_nil, fun t ht => ?_⟩
  obtain ⟨b, -, rfl⟩ := List.mem_map.1 ht
  exact not_mem_hex rfl

theorem unbroken_dumpRow (a : Nat) (row : List Byte) : Unbroken (dumpRow a row) := by
  refine SourceLine.unbroken_intercalate (by decide) ?_
  rw [List.forall_mem_cons, List.forall_mem_cons]
  refine ⟨⟨not_mem_hexAddress rfl (by decide), not_mem_hexAddress rfl (by decide)⟩, by decide, fun t ht => ?_⟩
  obtain ⟨b, -, rfl⟩ := List.mem_map.1 ht
  exact ⟨not_mem_hex rfl, not_mem_hex rfl⟩

theorem toList_dumpRow {row : List Byte} (hrow : row ≠ []) (a : Nat) :
    (hexAddress a ++ "  " ++ " ".intercalate (row.map fun b => hex 2 b.toNat) ++ "\n").toList =
      dumpRow a row ++ ['\n'] := by
  have hlist : (row.map fun b => hex 2 b.toNat).map String.toList = row.map fun b => (hex 2 b.toNat).toList :=
    List.map_map
  obtain ⟨b, row, rfl⟩ := List.exists_cons_of_ne_nil hrow
  have hblanks : "  ".toList = [' ', ' '] := rfl
  have hblank : " ".toList = [' '] := rfl
  have hnewline : "\n".toList = ['\n'] := rfl
  rw [String.toList_append, String.toList_append, String.toList_append, String.toList_intercalate, hlist, dumpRow,
    List.map_cons, List.intercalate_cons_cons, List.intercalate_cons_cons, hblanks, hblank, hnewline]
  simp

/-- A dump shows all bytes, row by row. -/
theorem shownBytes_dataDump {image : Image} {data : List Byte}
    (h : (image.data.toList.take image.dataEnd).drop ramStart = data) :
    shownBytes image.dataDump = (sixteens data).map fun row => row.map fun b => hex 2 b.toNat := by
  have hdump : image.dataDump.toList =
      ((sixteens data).zipIdx.map fun p => dumpRow (ramStart + 16 * p.2) p.1).flatMap (· ++ ['\n']) := by
    unfold Image.dataDump
    dsimp only
    rw [h, String.toList_join, List.flatMap_map, List.flatMap_map]
    refine List.flatMap_congr fun p hp => ?_
    obtain ⟨row, i⟩ := p
    dsimp only
    rw [toList_dumpRow (ne_nil_of_mem_sixteens data row (List.fst_mem_of_mem_zipIdx hp))]
  have hlines : ∀ l ∈ (sixteens data).zipIdx.map fun p => dumpRow (ramStart + 16 * p.2) p.1, Unbroken l := by
    intro l hl
    obtain ⟨p, -, rfl⟩ := List.mem_map.1 hl
    exact unbroken_dumpRow _ _
  have hrow : ∀ p : List Byte × Nat, (((dumpRow (ramStart + 16 * p.2) p.1).splitOn ' ').drop 2).map String.ofList =
      p.1.map fun b => hex 2 b.toNat := by
    intro p
    rw [splitOn_dumpRow, List.drop_succ_cons, List.drop_succ_cons, List.drop_zero, List.map_map]
    refine List.map_congr_left fun b _ => ?_
    rw [Function.comp_apply, String.ofList_toList]
  rw [shownBytes, hdump, lines_flatMap hlines, List.map_map]
  have hfirst := congrArg (List.map fun row : List Byte => row.map fun b => hex 2 b.toNat)
    (List.zipIdx_map_fst 0 (sixteens data))
  rw [← hfirst, List.map_map]
  refine List.map_congr_left fun p _ => ?_
  rw [Function.comp_apply, Function.comp_apply, hrow]

theorem toList_shownLine {row : List Byte} (hrow : row ≠ []) :
    (shownLine (row.map fun b => hex 2 b.toNat)).toList = byteLine row := by
  have hlist : ((row.map fun b => hex 2 b.toNat).map ("0x" ++ ·)).map String.toList =
      row.map fun b => (byteText b).toList := by
    rw [List.map_map, List.map_map]
    rfl
  have hempty : (row.map fun b => (byteText b).toList).isEmpty = false := by
    rw [List.isEmpty_map, List.isEmpty_eq_false_iff]
    exact hrow
  rw [shownLine, String.toList_append, String.toList_intercalate, hlist, byteLine, lineText, hempty,
    if_neg Bool.false_ne_true]
  rfl

/-! ## Code -/

theorem Instruction.slots_eq_cons (i : Instruction) : ∃ rest, i.slots = .inst i :: rest ∧
    ∀ s ∈ rest, s = Slot.continuation := by
  unfold slots
  split
  · exact ⟨[.continuation], rfl, by simp⟩
  · exact ⟨[], rfl, by simp⟩

theorem slotTexts_slots (i : Instruction) (entry k : Nat) : (i.slots.zipIdx k).flatMap (slotTexts entry) =
    if k = entry then ["main:", i.text] else [i.text] := by
  unfold Instruction.slots
  split <;> simp [slotTexts]

/-- Where the machine does not start, the instructions alone are written. -/
theorem slotTexts_of_outside {is : List Instruction} {entry k : Nat}
    (h : entry < k ∨ k + (is.flatMap Instruction.slots).length ≤ entry) :
    ((is.flatMap Instruction.slots).zipIdx k).flatMap (slotTexts entry) = is.map Instruction.text := by
  induction is generalizing k with
  | nil => rfl
  | cons i is ih =>
    obtain ⟨rest, hrest, -⟩ := i.slots_eq_cons
    have hpos : 0 < i.slots.length := by
      rw [hrest]
      exact Nat.succ_pos _
    rw [List.flatMap_cons, List.length_append] at h
    rw [List.flatMap_cons, List.zipIdx_append, List.flatMap_append, slotTexts_slots, if_neg (by omega),
      ih (by omega), List.map_cons]
    rfl

/-! ## The entry -/

theorem getElem?_withEntry_low {bytes : Array Byte} (h : entryLowCell < bytes.size) (entry : Nat) :
    (withEntry bytes entry)[entryLowCell]? = some (lowByte (BitVec.ofNat 16 entry)) := by
  rw [withEntry, Array.getElem?_setIfInBounds_ne (by decide), Array.getElem?_setIfInBounds_self_of_lt h]

theorem getElem?_withEntry_high {bytes : Array Byte} (h : entryHighCell < bytes.size) (entry : Nat) :
    (withEntry bytes entry)[entryHighCell]? = some (highByte (BitVec.ofNat 16 entry)) := by
  rw [withEntry, Array.getElem?_setIfInBounds_self_of_lt (by rw [Array.size_setIfInBounds]; exact h)]

theorem getElem?_withEntry_other {a : Nat} (hlow : entryLowCell ≠ a) (hhigh : entryHighCell ≠ a) (bytes : Array Byte)
    (entry : Nat) : (withEntry bytes entry)[a]? = bytes[a]? := by
  rw [withEntry, Array.getElem?_setIfInBounds_ne hhigh, Array.getElem?_setIfInBounds_ne hlow]

namespace Image.Shape

variable {image : Image} {before after : List Instruction} {d : Array Byte}

theorem entry_le (h : image.Shape before after d) : (before.flatMap Instruction.slots).length ≤ image.codeLength := by
  rw [h.codeLength, List.flatMap_append, List.length_append]
  exact Nat.le_add_right _ _

theorem getElem?_data (h : image.Shape before after d) {a : Nat} (ha : a < ramSize) : image.data[a]? =
    some ((withEntry (Array.replicate ramStart 0 ++ d) (before.flatMap Instruction.slots).length)[a]?.getD 0) := by
  rw [h.data, dataOf, Vector.getElem?_ofFn, dif_pos ha]

/-- The reserved cells hold the slot where the machine starts. -/
theorem entryIndex_eq (h : image.Shape before after d) : image.entryIndex = (before.flatMap Instruction.slots).length := by
  have hle := h.entry_le
  have hfits : image.codeLength ≤ 0x4000 := h.fits
  have hsize : ramStart ≤ (Array.replicate ramStart (0 : Byte) ++ d).size := by
    rw [Array.size_append, Array.size_replicate]
    exact Nat.le_add_right _ _
  have hlow : entryLowCell < (Array.replicate ramStart (0 : Byte) ++ d).size := Nat.lt_of_lt_of_le (by decide) hsize
  have hhigh : entryHighCell < (Array.replicate ramStart (0 : Byte) ++ d).size := Nat.lt_of_lt_of_le (by decide) hsize
  have hlowByte : ({ cells := image.data } : Memory).read entryLowCell =
      lowByte (BitVec.ofNat 16 (before.flatMap Instruction.slots).length) := by
    rw [Memory.read, h.getElem?_data (by decide), getElem?_withEntry_low hlow]
    rfl
  have hhighByte : ({ cells := image.data } : Memory).read entryHighCell =
      highByte (BitVec.ofNat 16 (before.flatMap Instruction.slots).length) := by
    rw [Memory.read, h.getElem?_data (by decide), getElem?_withEntry_high hhigh]
    rfl
  have hnext : entryLowCell + 1 = entryHighCell := rfl
  rw [Image.entryIndex, Memory.readPair, toNat_wordOf, hnext, hlowByte, hhighByte, toNat_lowByte, toNat_highByte,
    BitVec.toNat_ofNat]
  omega

theorem data_eq (h : image.Shape before after d) : (image.data.toList.take image.dataEnd).drop ramStart = d.toList := by
  have hroom := h.room
  apply List.ext_getElem?
  intro i
  rw [List.getElem?_drop, List.getElem?_take, h.dataEnd]
  by_cases hi : i < d.size
  · have ha : ramStart + i < ramSize := by omega
    have hother : ∀ a : Nat, a < ramStart → a ≠ ramStart + i := by omega
    have hhigh := hother entryHighCell (by decide)
    have hlow := hother entryLowCell (by decide)
    have hdata : image.data.toList[ramStart + i]? = image.data[ramStart + i]? := by simp
    have hsize : (Array.replicate ramStart (0 : Byte)).size = ramStart := Array.size_replicate
    rw [if_pos (by omega), hdata, h.getElem?_data ha, getElem?_withEntry_other hlow hhigh,
      Array.getElem?_append_right (by omega), hsize, Nat.add_sub_cancel_left,
      Array.getElem?_toList, Array.getElem?_eq_getElem hi, Option.getD_some]
  · rw [if_neg (by omega), Array.getElem?_toList, Array.getElem?_eq_none (Nat.not_lt.1 hi)]

/-- The instructions of the image are written in order, with the label between the two lists. -/
theorem codeTexts_eq (h : image.Shape before after d) :
    image.codeTexts = before.map Instruction.text ++ "main:" :: after.map Instruction.text := by
  have hentry := h.entryIndex_eq
  have hlength := h.codeLength
  have hslots : image.program.toList.take image.codeLength = (before ++ after).flatMap Instruction.slots := by
    rw [h.program, filled, Array.toList_append, h.codeLength]
    exact List.take_left
  rw [List.flatMap_append, List.length_append] at hlength
  rw [Image.codeTexts, hslots, List.flatMap_append, List.zipIdx_append, List.flatMap_append,
    slotTexts_of_outside (.inr (by omega))]
  cases after with
  | nil =>
    rw [List.flatMap_nil, List.length_nil] at hlength
    rw [if_pos (by omega), List.flatMap_nil, List.zipIdx_nil, List.flatMap_nil, List.append_nil, List.map_nil]
  | cons i after =>
    obtain ⟨rest, hrest, -⟩ := i.slots_eq_cons
    have hpos : 0 < i.slots.length := by
      rw [hrest]
      exact Nat.succ_pos _
    rw [List.flatMap_cons, List.length_append] at hlength
    rw [if_neg (by omega), List.flatMap_cons, List.zipIdx_append, List.flatMap_append, slotTexts_slots,
      if_pos (by omega), slotTexts_of_outside (.inl (by omega)), List.append_nil]
    rfl

/-- The lines that are written are those of a source of the bytes and instructions. -/
theorem rewrittenLines_eq (h : image.Shape before after d) : image.rewrittenLines.map String.toList =
    (sourceLines (sixteens d.toList) before after).map SourceLine.text := by
  have hcode : image.codeTexts.map String.toList = (codeLines before after).map SourceLine.text := by
    rw [h.codeTexts_eq, List.map_append, List.map_cons, List.map_map, List.map_map, codeLines, List.map_append,
      List.map_cons, List.map_map, List.map_map]
    rfl
  have hdata : ((shownBytes image.dataDump).map shownLine).map String.toList =
      ((sixteens d.toList).map SourceLine.bytes).map SourceLine.text := by
    rw [shownBytes_dataDump h.data_eq, List.map_map, List.map_map, List.map_map]
    refine List.map_congr_left fun row hrow => ?_
    exact toList_shownLine (ne_nil_of_mem_sixteens _ _ hrow)
  rw [Image.rewrittenLines, sourceLines, List.map_append, List.map_append, List.map_cons, List.map_cons, hdata,
    List.map_cons, List.map_cons, List.map_cons, List.map_cons, List.map_append, List.map_append, hcode]
  rfl

theorem toList_rewritten (h : image.Shape before after d) : image.rewritten.toList =
    ((sourceLines (sixteens d.toList) before after).map SourceLine.text).flatMap (· ++ ['\n']) := by
  rw [← h.rewrittenLines_eq, Image.rewritten, String.toList_join, List.flatMap_map, List.flatMap_map]
  refine List.flatMap_congr fun l _ => ?_
  rw [String.toList_append]
  rfl

end Image.Shape

end Avr

import Avr.Proofs.Listing.Rewritten

/-!
# Images from their own listings

* `Slot.SameContent`, `Image.SameProgram` : images that differ in source lines, names and breakpoints at most;
* `resolves_statedBy` : statements of written instructions turn into these instructions again;
* `assemble_rewritten` : the source that is written for an image assembles to the same image.
-/

namespace Avr

/-! ## Images that agree -/

/-- The same content: second words, or instructions with the same mnemonic, operands and opcode. -/
def Slot.SameContent : Slot → Slot → Prop
  | .inst i, .inst j => i.mnemonic = j.mnemonic ∧ i.operands = j.operands ∧ i.opcode = j.opcode
  | .continuation, .continuation => True
  | _, _ => False

theorem Slot.SameContent.refl (s : Slot) : s.SameContent s := by
  cases s with
  | inst i => exact ⟨rfl, rfl, rfl⟩
  | continuation => trivial

/-- Images with the same code and data. -/
structure Image.SameProgram (image image' : Image) : Prop where
  codeLength : image.codeLength = image'.codeLength
  dataEnd : image.dataEnd = image'.dataEnd
  data : image.data = image'.data
  program : List.Forall₂ Slot.SameContent image.program.toList image'.program.toList

theorem sameContent_filled {slots slots' : List Slot} (h : List.Forall₂ Slot.SameContent slots slots') :
    List.Forall₂ Slot.SameContent (filled slots.toArray).toList (filled slots'.toArray).toList := by
  have hlength := h.length_eq
  unfold filled
  rw [Array.toList_append, Array.toList_append, List.size_toArray, List.size_toArray, hlength]
  exact List.rel_append h (List.forall₂_same.2 fun s _ => .refl s)

/-! ## Instructions that are written and read again -/

variable {symbols : Symbols}

/-- The slots of a statement turn into those of the instruction that it states. -/
theorem resolves_block (hfree : ∀ f : PseudoFunc, symbols.find? f.name = none) {i : Instruction} (hi : i.Accepted)
    {st : Statement} (hst : i.StatedBy st) (k : Nat) :
    ∃ slots, List.Forall₂ (Resolves symbols) (st.block.zipIdx k) slots ∧
      List.Forall₂ Slot.SameContent i.slots slots := by
  obtain ⟨args, hargs, hinst⟩ := instruction_statedBy (r := .ofFlow st.mnemonic.entry.flow k) hfree hi hst
  have hresolves : Resolves symbols (some st, k) (.inst { i with line := st.line }) := ⟨args, _, hargs, hinst, rfl⟩
  have hsame : (Slot.inst i).SameContent (.inst { i with line := st.line }) := ⟨rfl, rfl, rfl⟩
  unfold Statement.block Instruction.slots
  rw [hst.1]
  split
  · exact ⟨[_, .continuation], .cons hresolves (.cons rfl .nil), .cons hsame (.cons trivial .nil)⟩
  · exact ⟨[_], .cons hresolves .nil, .cons hsame .nil⟩

theorem resolves_statedBy (hfree : ∀ f : PseudoFunc, symbols.find? f.name = none) {is : List Instruction}
    (his : ∀ i ∈ is, i.Accepted) {sts : List Statement} (h : List.Forall₂ Instruction.StatedBy is sts) (k : Nat) :
    ∃ slots, List.Forall₂ (Resolves symbols) ((sts.flatMap Statement.block).zipIdx k) slots ∧
      List.Forall₂ Slot.SameContent (is.flatMap Instruction.slots) slots := by
  induction h generalizing k with
  | nil => exact ⟨[], .nil, .nil⟩
  | @cons i st is sts hst _ ih =>
    rw [List.forall_mem_cons] at his
    obtain ⟨slots, hslots, hsame⟩ := resolves_block hfree his.1 hst k
    obtain ⟨slots', hslots', hsame'⟩ := ih his.2 (k + st.block.length)
    refine ⟨slots ++ slots', ?_, List.rel_append hsame hsame'⟩
    rw [List.flatMap_cons, List.zipIdx_append]
    exact List.rel_append hslots hslots'

theorem find?_mainSymbols (entry : Nat) (f : PseudoFunc) : (mainSymbols entry).find? f.name = none := by
  have hfree : Symbols.predefined.find? f.name = none := by cases f; decide +kernel
  have hne : f.name ≠ "main" := by cases f; decide
  rw [mainSymbols, Symbols.find?_bind, if_neg hne, hfree]

/-! ## The round trip -/

theorem fine_sourceLines {rows : List (List Byte)} {before after : List Instruction}
    (h : ∀ i ∈ before ++ after, i.Accepted) : ∀ l ∈ sourceLines rows before after, l.Fine := by
  have hcode : ∀ i ∈ before ++ after, (SourceLine.code i).Fine := fun i hi => writable_of_admitted (h i hi).admitted
  rw [List.forall_mem_append] at hcode
  unfold sourceLines codeLines
  simp only [List.forall_mem_append, List.forall_mem_cons, List.forall_mem_map]
  exact ⟨⟨.inl rfl, fun _ _ => trivial⟩, .inr rfl, trivial, ⟨hcode.1, trivial, hcode.2⟩, trivial, by simp⟩

/-- The source that is written for an image assembles, and to the same code and data. -/
theorem assemble_rewritten {source : String} {wanted : Option Nat} {image : Image}
    (h : assemble source wanted = .ok image) (wanted' : Option Nat) :
    ∃ image', assemble image.rewritten wanted' = .ok image' ∧ image.SameProgram image' := by
  obtain ⟨before, after, d, hshape, -⟩ := image_shape h
  obtain ⟨lines, hlines, hsays⟩ := tokenize_source (fine_sourceLines hshape.accepted) hshape.toList_rewritten
  have hfits := hshape.fits
  have hroom := hshape.room
  rw [hshape.codeLength] at hfits
  rw [← Array.length_toList, ← flatten_sixteens d.toList] at hroom
  obtain ⟨l, sts, hl, hsts, hslots, hsymbols, hbytes⟩ :=
    layout_source hsays (ne_nil_of_mem_sixteens d.toList) hfits hroom wanted'
  have hfree : ∀ f : PseudoFunc, l.symbols.find? f.name = none := by
    rw [hsymbols]
    exact find?_mainSymbols _
  obtain ⟨slots, hresolves, hsame⟩ := resolves_statedBy hfree hshape.accepted hsts 0
  rw [← hslots] at hresolves
  obtain ⟨r, hr, himage⟩ := image_of_resolves hresolves
  rw [flatten_sixteens, Array.toArray_toList] at hbytes
  refine ⟨_, assemble_eq_ok_iff.2 ⟨lines, l, r, hlines, hl, hr, himage⟩, ?_, ?_, ?_, ?_⟩
  · rw [hshape.codeLength]
    exact hsame.length_eq
  · dsimp only
    rw [hshape.dataEnd, hbytes, withEntry, Array.size_setIfInBounds, Array.size_setIfInBounds, Array.size_append,
      Array.size_replicate]
  · rw [hshape.data, ← hbytes]
    rfl
  · rw [hshape.program]
    exact sameContent_filled hsame

/-- Data, a displacement, and a branch back to a label in front of the entry. -/
def backwardBranch : String :=
  ".section .data\n.byte 7\n.section .text\n.global main\nskip: LDD R16, Z+5\nmain: RJMP skip\n.end"

theorem assemble_rewritten_backward : ∃ image image', assemble backwardBranch none = .ok image ∧
    assemble image.rewritten none = .ok image' ∧ image.SameProgram image' := by
  have hok : (assemble backwardBranch none).isOk = true := by decide +kernel
  cases himage : assemble backwardBranch none with
  | error e =>
    rw [himage] at hok
    cases hok
  | ok image =>
    obtain ⟨image', himage', hsame⟩ := assemble_rewritten himage none
    exact ⟨image, image', rfl, himage', hsame⟩

end Avr

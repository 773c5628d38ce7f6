import Avr.Proofs.Layout.Headers
import Avr.Proofs.Listing.Rewritten
import Avr.Proofs.Machine.Label
import Avr.Proofs.Opcode.Digits

/-!
# Images are well formed

* `Paired` : the second words in a list of slots are those behind instructions of two words; `paired_slots` : the slots
  of instructions are paired;
* `foldlM_add_breakpoint` : the slot to stop at holds a statement;
* `Image.WellFormed` : what the simulator relies on, and `Image.Shape.wellFormed`, which gives most of it;
* `assemble_wellFormed` : every assembled image is well formed, its labels stand at instructions, and it starts at the
  first global name.
-/

namespace Avr

/-! ## Second words -/

/-- The second words are those behind instructions of two words. -/
def Paired (slots : List Slot) : Prop :=
  ∀ j, slots[j]? = some .continuation ↔ ∃ k i, j = k + 1 ∧ slots[k]? = some (.inst i) ∧ i.width = 2

theorem paired_nil : Paired [] := by
  intro j
  simp

theorem Paired.single {slots : List Slot} (h : Paired slots) {i : Instruction} (hi : i.width ≠ 2) :
    Paired (.inst i :: slots) := by
  intro j
  cases j with
  | zero => simp
  | succ j =>
    rw [List.getElem?_cons_succ, h j]
    constructor
    · rintro ⟨k, i', rfl, hk, hwidth⟩
      exact ⟨k + 1, i', rfl, hk, hwidth⟩
    · rintro ⟨k, i', hj, hk, hwidth⟩
      obtain rfl := Nat.succ.inj hj
      cases j with
      | zero =>
        cases hk
        exact absurd hwidth hi
      | succ k => exact ⟨k, i', rfl, hk, hwidth⟩

theorem Paired.double {slots : List Slot} (h : Paired slots) {i : Instruction} (hi : i.width = 2) :
    Paired (.inst i :: .continuation :: slots) := by
  intro j
  rcases j with _ | _ | j
  · simp
  · exact ⟨fun _ => ⟨0, i, rfl, rfl, hi⟩, fun _ => rfl⟩
  · rw [List.getElem?_cons_succ, List.getElem?_cons_succ, h j]
    constructor
    · rintro ⟨k, i', rfl, hk, hwidth⟩
      exact ⟨k + 2, i', rfl, hk, hwidth⟩
    · rintro ⟨k, i', hj, hk, hwidth⟩
      obtain rfl := Nat.succ.inj hj
      cases j with
      | zero => cases hk
      | succ k => exact ⟨k, i', rfl, hk, hwidth⟩

theorem paired_slots (is : List Instruction) : Paired (is.flatMap Instruction.slots) := by
  induction is with
  | nil => exact paired_nil
  | cons i is ih =>
    rw [List.flatMap_cons, Instruction.slots]
    split
    · next hdouble => exact ih.double (eq_of_beq hdouble)
    · next hsingle => exact ih.single fun hwidth => hsingle (beq_of_eq hwidth)

theorem toList_filled (is : List Instruction) : (filled (is.flatMap Instruction.slots).toArray).toList =
    (is ++ List.replicate (flashSize - (is.flatMap Instruction.slots).length) Instruction.nop).flatMap
      Instruction.slots := by
  have hnop : ∀ n, (List.replicate n Instruction.nop).flatMap Instruction.slots = List.replicate n (.inst .nop) := by
    intro n
    induction n with
    | zero => rfl
    | succ n ih =>
      rw [List.replicate_succ, List.flatMap_cons, ih, List.replicate_succ]
      rfl
  rw [filled, Array.toList_append, List.flatMap_append, hnop]
  simp

/-! ## Breakpoints -/

namespace ProgramState

/-- The slot to stop at, if there is one, holds a statement. -/
def BreakpointSet (s : ProgramState) : Prop := ∀ b, s.breakpoint = some b → ∃ st, s.slots[b]? = some (some st)

theorem getElem?_push_of_some {slots : Array (Option Statement)} {b : Nat} {o : Option Statement}
    (h : slots[b]? = some o) (st : Statement) : (push slots st)[b]? = some o := by
  obtain ⟨hb, rfl⟩ := Array.getElem?_eq_some_iff.1 h
  rw [← Array.getElem?_toList, toList_push, List.getElem?_append_left (by simpa using hb), Array.getElem?_toList, h]

theorem getElem?_push_size (slots : Array (Option Statement)) (st : Statement) :
    (push slots st)[slots.size]? = some (some st) := by
  obtain ⟨rest, hblock, -⟩ := st.block_eq_cons
  rw [← Array.getElem?_toList, toList_push, hblock, List.getElem?_append_right (by simp)]
  simp

theorem addStatement_breakpoint {wanted : Option Nat} {s t : ProgramState} {st : Statement} (hs : s.BreakpointSet)
    (h : s.addStatement wanted st = .ok t) : t.BreakpointSet := by
  unfold addStatement at h
  dsimp only at h
  split at h
  · cases h
  · cases h
    intro b hb
    dsimp only at hb ⊢
    have hkept : s.breakpoint = some b → ∃ st', (push s.slots st)[b]? = some (some st') := by
      intro hfound
      obtain ⟨st', hst'⟩ := hs b hfound
      exact ⟨st', getElem?_push_of_some hst' st⟩
    unfold breakpointAt at hb
    split at hb
    · split at hb
      · cases hb
        exact ⟨st, getElem?_push_size s.slots st⟩
      · cases hb
    · exact hkept hb

theorem addTokens_breakpoint {wanted : Option Nat} {s t : ProgramState} {line : Nat} {tokens : List Token}
    (hs : s.BreakpointSet) (h : s.addTokens wanted line tokens = .ok t) : t.BreakpointSet := by
  unfold addTokens at h
  split at h
  · cases h
    exact hs
  · dsimp only at h
    split at h
    · split at h
      · cases h
      · split at h
        · cases h
          exact hs
        · cases h
    · split at h
      · exact addStatement_breakpoint hs h
      · cases h
    · cases h

theorem add_breakpoint {wanted : Option Nat} {s t : ProgramState} {line : Line} (hs : s.BreakpointSet)
    (h : add wanted s line = .ok t) : t.BreakpointSet := by
  obtain ⟨⟨tokens, symbols⟩, -, h⟩ := bind_eq_ok.1 h
  have hlabel : ({ s with symbols := symbols } : ProgramState).BreakpointSet := hs
  exact addTokens_breakpoint hlabel h

theorem foldlM_add_breakpoint {wanted : Option Nat} {lines : List Line} {s t : ProgramState} (hs : s.BreakpointSet)
    (h : lines.foldlM (add wanted) s = .ok t) : t.BreakpointSet := by
  induction lines generalizing s with
  | nil =>
    cases h
    exact hs
  | cons line lines ih =>
    obtain ⟨u, hu, h⟩ := foldlM_cons_eq_ok.1 h
    exact ih (add_breakpoint hs hu) h

end ProgramState

/-! ## Images -/

/-- What the simulator relies on: two memories of the right size, second words behind instructions of two words only,
instructions with admitted operands and opcodes of their width, then filler, empty data memory behind the assembled
data, and an instruction to stop at. -/
structure Image.WellFormed (image : Image) : Prop where
  programSize : image.program.size = flashSize
  dataSize : image.data.toArray.size = ramSize
  continuation : ∀ j, image.program[j]? = some .continuation ↔
    ∃ k i, j = k + 1 ∧ image.program[k]? = some (.inst i) ∧ i.width = 2
  codeLength : image.codeLength ≤ flashSize
  admitted : ∀ j i, j < image.codeLength → image.program[j]? = some (.inst i) →
    Admitted i.mnemonic i.operands ∧ BinaryDigits i.width i.opcode.toList
  filler : ∀ j, image.codeLength ≤ j → j < flashSize → image.program[j]? = some (.inst .nop)
  dataEnd : ramStart ≤ image.dataEnd ∧ image.dataEnd ≤ ramSize
  zero : ∀ a, image.dataEnd ≤ a → a < ramSize → image.data[a]? = some 0
  breakpoint : ∀ b, image.breakpoint = some b → b < image.codeLength ∧ ∃ i, image.program[b]? = some (.inst i)

namespace Image.Shape

variable {image : Image} {before after : List Instruction} {d : Array Byte}

theorem getElem?_program (h : image.Shape before after d) (j : Nat) : image.program[j]? =
    ((before ++ after ++ List.replicate (flashSize - image.codeLength) Instruction.nop).flatMap
      Instruction.slots)[j]? := by
  rw [← Array.getElem?_toList, h.program, toList_filled, h.codeLength]

theorem getElem?_code (h : image.Shape before after d) {j : Nat} (hj : j < image.codeLength) :
    image.program[j]? = ((before ++ after).flatMap Instruction.slots)[j]? := by
  rw [h.getElem?_program, List.flatMap_append, List.getElem?_append_left (h.codeLength ▸ hj)]

theorem getElem?_filler (h : image.Shape before after d) {j : Nat} (hj : image.codeLength ≤ j)
    (hflash : j < flashSize) : image.program[j]? = some (.inst .nop) := by
  have hsize := ((before ++ after).flatMap Instruction.slots).size_toArray
  rw [← h.codeLength] at hsize
  rw [h.program, filled, Array.getElem?_append_right (hsize ▸ hj), hsize, Array.getElem?_replicate, if_pos (by omega)]

theorem accepted_of_mem (h : image.Shape before after d) {i : Instruction}
    (hi : .inst i ∈ (before ++ after).flatMap Instruction.slots) : i.Accepted := by
  obtain ⟨i', hi', hslot⟩ := List.mem_flatMap.1 hi
  obtain ⟨rest, hslots, hrest⟩ := i'.slots_eq_cons
  rw [hslots, List.mem_cons] at hslot
  rcases hslot with heq | hslot
  · obtain rfl := Slot.inst.inj heq
    exact h.accepted i hi'
  · cases hrest _ hslot

theorem wellFormed (h : image.Shape before after d)
    (hbreakpoint : ∀ b, image.breakpoint = some b → b < image.codeLength ∧ ∃ i, image.program[b]? = some (.inst i)) :
    image.WellFormed where
  programSize := by
    have hfits := h.fits
    rw [h.codeLength] at hfits
    rw [h.program, filled, Array.size_append, Array.size_replicate, List.size_toArray]
    omega
  dataSize := image.data.size_toArray
  continuation j := by
    simp only [h.getElem?_program]
    exact paired_slots _ j
  codeLength := h.fits
  admitted j i hj hi := by
    rw [h.getElem?_code hj] at hi
    have haccepted := h.accepted_of_mem (List.mem_of_getElem? hi)
    exact ⟨haccepted.admitted, haccepted.digits⟩
  filler j hj hflash := h.getElem?_filler hj hflash
  dataEnd := by
    have hroom := h.room
    rw [h.dataEnd]
    omega
  zero a ha hram := by
    rw [h.dataEnd] at ha
    rw [h.getElem?_data hram, Array.getElem?_eq_none]
    · rfl
    · rw [withEntry, Array.size_setIfInBounds, Array.size_setIfInBounds, Array.size_append, Array.size_replicate]
      exact ha
  breakpoint := hbreakpoint

end Image.Shape

/-- The slot to stop at holds an instruction of the assembled code. -/
theorem breakpoint_of_assemble {source : String} {wanted : Option Nat} {image : Image}
    (h : assemble source wanted = .ok image) {b : Nat} (hb : image.breakpoint = some b) :
    b < image.codeLength ∧ ∃ i, image.program[b]? = some (.inst i) := by
  obtain ⟨lines, l, r, -, hl, hr, himage⟩ := assemble_eq_ok_iff.1 h
  obtain ⟨slots, -, -, -, -, hbreakpoint, -⟩ := image_slots hr himage
  obtain ⟨sections, program, data, -, -, hprogram, -, rfl⟩ := layout_ok hl
  obtain ⟨entry, hfold, -⟩ := layoutProgram_ok hprogram
  rw [hbreakpoint] at hb
  obtain ⟨st, hst⟩ := ProgramState.foldlM_add_breakpoint (fun _ h => by cases h) hfold b hb
  obtain ⟨slot, hslot, args, i, -, -, rfl⟩ := resolves_of_getElem? hr himage hst
  rw [codeLength_eq hr himage]
  exact ⟨(Array.getElem?_eq_some_iff.1 hst).1, i, hslot⟩

theorem wellFormed_of_assemble {source : String} {wanted : Option Nat} {image : Image}
    (h : assemble source wanted = .ok image) : image.WellFormed := by
  obtain ⟨before, after, d, hshape, -⟩ := image_shape h
  exact hshape.wellFormed fun b hb => breakpoint_of_assemble h hb

/-! ## Labels -/

/-- Where the instructions from a line on begin there is no second word. -/
theorem Image.Begins.not_continuation {image : Image} (hw : image.WellFormed) {n target : Nat}
    (h : image.Begins n target) : image.program[target]? ≠ some .continuation := by
  rcases h.first with rfl | ⟨-, i, hi, -⟩
  · rcases Nat.lt_or_ge image.codeLength flashSize with hlt | hge
    · rw [hw.filler _ (Nat.le_refl _) hlt]
      exact nofun
    · rw [Array.getElem?_eq_none (hw.programSize ▸ hge)]
      exact nofun
  · rw [hi]
    exact nofun

/-- Every assembled image is well formed. The labels of its text section stand where an instruction begins or behind
all of them, and the reserved cells hold the index of the first global name. -/
theorem assemble_wellFormed {source : String} {wanted : Option Nat} {image : Image}
    (h : assemble source wanted = .ok image) :
    image.WellFormed ∧ ∃ lines sections, tokenize source = .ok lines ∧ checkSections lines = .ok sections ∧
      (∀ line ∈ sections.textLines lines, ∀ name, leadingLabel? line.tokens = some name →
        ∃ index, image.symbols.label? name = some index ∧ index ≤ image.codeLength ∧
          image.program[index]? ≠ some .continuation) ∧
      ∃ name loc, lines.findSome? (fun line => globalName? line.tokens) = some (name, loc) ∧
        image.symbols.label? name = some image.entryIndex := by
  have hwell := wellFormed_of_assemble h
  obtain ⟨before, after, d, hshape, lines', name, loc, hlines', hname, hlabel⟩ := image_shape h
  obtain ⟨lines, l, r, hlines, hl, hr, himage⟩ := assemble_eq_ok_iff.1 h
  obtain rfl : lines = lines' := Except.ok.inj (hlines.symm.trans hlines')
  obtain ⟨slots, -, -, -, hsymbols, -⟩ := image_slots hr himage
  obtain ⟨sections, program, data, hsections, -⟩ := layout_ok hl
  refine ⟨hwell, lines, sections, hlines, hsections, fun line hline name hname => ?_, name, loc, hname, ?_⟩
  · obtain ⟨index, hindex, hbetween⟩ := layout_label (tokenize_pairwise hlines) hl hsections hline hname
    have hbegins := begins_of_between hr himage hbetween
    refine ⟨index, hsymbols ▸ hindex, ?_, hbegins.not_continuation hwell⟩
    rcases hbegins.first with heq | ⟨hlt, -⟩
    · exact heq.le
    · exact hlt.le
  · rw [hlabel, hshape.entryIndex_eq]

theorem assemble_wellFormed_forward : ∃ image, assemble forwardBranch (some 5) = .ok image ∧ image.WellFormed := by
  have hok : (assemble forwardBranch (some 5)).isOk = true := by decide +kernel
  cases himage : assemble forwardBranch (some 5) with
  | error e =>
    rw [himage] at hok
    cases hok
  | ok image => exact ⟨image, rfl, (assemble_wellFormed himage).1⟩

end Avr

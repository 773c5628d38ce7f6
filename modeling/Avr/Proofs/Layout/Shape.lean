import Avr.Proofs.Layout.Accepted
import Avr.Proofs.Layout.Headers

/-!
# What every image looks like

* `label?_predefined` : no program starts with a label;
* `layout_shape` : the slots of a layout, split at the slot where the machine starts, and its bytes;
* `Instruction.slots` : the slots that an instruction takes;
* `Image.Shape` : an image by its instructions in front of the entry, those from there on, and its data;
* `image_shape` : every assembled image has that shape.
-/

namespace Avr

/-! ## Layouts -/

theorem label?_foldl_bind {bindings : List (String × Binding)} (h : ∀ p ∈ bindings, p.2.index? = none) {s : Symbols}
    (hs : ∀ name, s.label? name = none) (name : String) :
    (bindings.foldl (fun s p => s.bind p.1 p.2) s).label? name = none := by
  induction bindings generalizing s with
  | nil => exact hs name
  | cons p bindings ih =>
    rw [List.forall_mem_cons] at h
    refine ih h.2 fun other => ?_
    rw [Symbols.label?_bind, h.1, hs, ite_self]

theorem label?_predefined (name : String) : Symbols.predefined.label? name = none := by
  have hmap : Symbols.predefined = ((Symbols.predefinedAliases.map fun p => (p.1, Binding.registerAlias p.2)) ++
      Symbols.predefinedConstants.map fun p => (p.1, Binding.constant p.2)).foldl (fun s p => s.bind p.1 p.2)
        Symbols.empty := by
    rw [List.foldl_append, List.foldl_map, List.foldl_map]
    rfl
  rw [hmap]
  refine label?_foldl_bind ?_ (fun _ => ?_) name
  · intro p hp
    rcases List.mem_append.1 hp with hp | hp
    all_goals
      obtain ⟨q, -, rfl⟩ := List.mem_map.1 hp
      rfl
  · unfold Symbols.label? Symbols.find? Symbols.empty
    simp

/-- The slots of a layout are those of statements of its lines, and it starts where one of them begins or the last one
ends: at its first global name. Its bytes are the empty registers and windows, but for the entry, and the data. -/
theorem layout_shape {lines : List Line} {wanted : Option Nat} {l : Layout} (h : layout lines wanted = .ok l) :
    ∃ (before after : List Statement) (d : Array Byte), l.slots.toList = (before ++ after).flatMap Statement.block ∧
      l.slots.size ≤ flashSize ∧ ramStart + d.size ≤ ramSize ∧
      l.bytes = withEntry (Array.replicate ramStart 0 ++ d) (before.flatMap Statement.block).length ∧
      (∀ st ∈ before ++ after, ∃ line ∈ lines, st.From line) ∧
      ∃ name loc, lines.findSome? (fun line => globalName? line.tokens) = some (name, loc) ∧
        l.symbols.label? name = some (before.flatMap Statement.block).length := by
  obtain ⟨sections, program, data, hsections, -, hprogram, hdata, rfl⟩ := layout_ok h
  obtain ⟨⟨name, loc⟩, hfold, hglobals, first, hfirst, hname⟩ := layoutProgram_ok hprogram
  obtain ⟨sts, hadds, hsts⟩ := ProgramState.foldlM_add_ok hfold
  have hgrows := layoutData_grows hdata
  obtain ⟨d, hd⟩ := hgrows.bytes
  obtain ⟨more, hmore⟩ := hadds.globals
  have hhead : program.globals.head? = some (name, loc) := by rw [hmore]; rfl
  obtain ⟨entry, hentry⟩ := Option.isSome_iff_exists.1 (hglobals _ (List.mem_of_head? hhead))
  have hsize : ramStart + d.size ≤ ramSize := by
    have hstart : (Array.replicate ramStart (0 : Byte)).size ≤ ramSize := by decide +kernel
    have hroom := hgrows.size hstart
    rw [hd, Array.size_append, Array.size_replicate] at hroom
    exact hroom
  rcases hadds.labels name entry hentry with hfree | ⟨before, after, rfl, hindex⟩
  · rw [label?_predefined] at hfree
    cases hfree
  · have hslots : program.slots.toList = (before ++ after).flatMap Statement.block := hadds.slots
    have hstart : entry = (before.flatMap Statement.block).length := by
      rw [hindex]
      exact Nat.zero_add _
    have hlabel := hgrows.symbols name entry hentry
    refine ⟨before, after, d, hslots, hadds.size (Nat.zero_le _), hsize, ?_, fun st hst => ?_, name, loc,
      findSome?_globalName? hsections hdata hfirst hname, hstart ▸ hlabel⟩
    · dsimp only
      rw [hd, hhead, Option.bind_some, hlabel, Option.getD_some, hstart]
    · obtain ⟨line, hline, hfrom⟩ := hsts st hst
      exact ⟨line, (textLines_sublist sections lines).subset hline, hfrom⟩

/-! ## Images -/

def Instruction.slots (i : Instruction) : List Slot :=
  if i.mnemonic.entry.isDoubleWord then [.inst i, .continuation] else [.inst i]

theorem Instruction.length_slots {i : Instruction} {st : Statement} (h : i.mnemonic = st.mnemonic) :
    i.slots.length = st.block.length := by
  unfold slots Statement.block
  rw [h]
  split <;> rfl

theorem length_flatMap_slots {sts : List Statement} {is : List Instruction}
    (h : List.Forall₂ (fun st i => Instruction.Accepted i ∧ i.mnemonic = st.mnemonic) sts is) :
    (is.flatMap Instruction.slots).length = (sts.flatMap Statement.block).length := by
  induction h with
  | nil => rfl
  | cons hhead _ ih =>
    rw [List.flatMap_cons, List.flatMap_cons, List.length_append, List.length_append, ih,
      Instruction.length_slots hhead.2]

/-- The slots of statements turn into those of instructions, one for each statement. -/
theorem resolves_blocks {symbols : Symbols} {sts : List Statement} {k : Nat} {slots : List Slot}
    (hsts : ∀ st ∈ sts, ∀ t ∈ st.args, t.Spelled)
    (h : List.Forall₂ (Resolves symbols) ((sts.flatMap Statement.block).zipIdx k) slots) :
    ∃ is : List Instruction, slots = is.flatMap Instruction.slots ∧
      List.Forall₂ (fun st i => Instruction.Accepted i ∧ i.mnemonic = st.mnemonic) sts is := by
  induction sts generalizing k slots with
  | nil =>
    cases h
    exact ⟨[], rfl, .nil⟩
  | cons st sts ih =>
    rw [List.forall_mem_cons] at hsts
    rw [List.flatMap_cons, Statement.block] at h
    split at h
    · next hdouble =>
      rw [List.cons_append, List.zipIdx_cons, List.cons_append, List.zipIdx_cons] at h
      cases h with
      | cons hinst h =>
        cases h with
        | cons hcont h =>
          obtain ⟨i, rfl, hi, hmnemonic, -⟩ := accepted_of_resolves hsts.1 hinst
          obtain ⟨is, rfl, his⟩ := ih hsts.2 h
          obtain rfl := hcont
          refine ⟨i :: is, ?_, .cons ⟨hi, hmnemonic⟩ his⟩
          rw [List.flatMap_cons, Instruction.slots, hmnemonic, if_pos hdouble]
          rfl
    · next hsingle =>
      rw [List.cons_append, List.zipIdx_cons] at h
      cases h with
      | cons hinst h =>
        obtain ⟨i, rfl, hi, hmnemonic, -⟩ := accepted_of_resolves hsts.1 hinst
        obtain ⟨is, rfl, his⟩ := ih hsts.2 h
        refine ⟨i :: is, ?_, .cons ⟨hi, hmnemonic⟩ his⟩
        rw [List.flatMap_cons, Instruction.slots, hmnemonic, if_neg hsingle]
        rfl

/-- Data memory as it starts out from assembled bytes. -/
def dataOf (bytes : Array Byte) : Vector Byte ramSize := Vector.ofFn fun i => bytes[i.val]?.getD 0

/-- An image by its instructions in front of the slot where the machine starts, those from there on, and its data. -/
structure Image.Shape (image : Image) (before after : List Instruction) (d : Array Byte) : Prop where
  accepted : ∀ i ∈ before ++ after, i.Accepted
  program : image.program = filled ((before ++ after).flatMap Instruction.slots).toArray
  codeLength : image.codeLength = ((before ++ after).flatMap Instruction.slots).length
  fits : image.codeLength ≤ flashSize
  data : image.data = dataOf (withEntry (Array.replicate ramStart 0 ++ d) (before.flatMap Instruction.slots).length)
  dataEnd : image.dataEnd = ramStart + d.size
  room : ramStart + d.size ≤ ramSize

/-- Every image of a source has this shape, and the machine starts at the first global name. -/
theorem image_shape {source : String} {wanted : Option Nat} {image : Image} (h : assemble source wanted = .ok image) :
    ∃ before after d, image.Shape before after d ∧ ∃ lines name loc, tokenize source = .ok lines ∧
      lines.findSome? (fun line => globalName? line.tokens) = some (name, loc) ∧
      image.symbols.label? name = some (before.flatMap Instruction.slots).length := by
  obtain ⟨lines, l, r, hlines, hl, hr, himage⟩ := assemble_eq_ok_iff.1 h
  obtain ⟨before, after, d, hslots, hfits, hroom, hbytes, hfrom, name, loc, hname, hlabel⟩ := layout_shape hl
  obtain ⟨slots, hall, hprogram, hlength, hsymbols, -, hdata, hdataEnd⟩ := image_slots hr himage
  have hspelled : ∀ st ∈ before ++ after, ∀ t ∈ st.args, t.Spelled := by
    intro st hst t ht
    obtain ⟨line, hline, hfrom⟩ := hfrom st hst
    exact tokenize_spelled hlines line hline t (hfrom.2 t ht)
  rw [hslots] at hall
  obtain ⟨is, rfl, his⟩ := resolves_blocks hspelled hall
  obtain ⟨before', after', rfl, hbefore, hafter⟩ := forall₂_append_left his
  refine ⟨before', after', d, ⟨?_, hprogram, hlength, ?_, ?_, ?_, hroom⟩, lines, name, loc, hlines, hname, ?_⟩
  · exact forall_of_forall₂_right (fun _ _ hi => hi.1) his
  · rw [codeLength_eq hr himage]
    exact hfits
  · rw [hdata, hbytes, length_flatMap_slots hbefore]
    rfl
  · rw [hdataEnd, hbytes, withEntry, Array.size_setIfInBounds, Array.size_setIfInBounds, Array.size_append,
      Array.size_replicate]
  · rw [hsymbols, hlabel, length_flatMap_slots hbefore]

end Avr

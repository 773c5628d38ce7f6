import Avr.Image
import Avr.Proofs.Layout.Data

/-!
# From source text to image

* `assemble_eq_ok_iff` : the passes of an assembly;
* `tokenize_pairwise` : lines are numbered in order;
* `layout_label` : a label of the text section, in the table of the whole program;
* `Resolves` : the slot that a slot of the layout turns into; `image_slots` : all slots of an image;
* `image_of_resolves` : slots that those of a layout turn into make an image;
* `assemblesTo` : a check whether the image of a source has given slots and data; `assemble_of_assemblesTo` : then that
  is its image.
-/

namespace Avr

theorem assemble_eq_ok_iff {source : String} {wanted : Option Nat} {image : Image} :
    assemble source wanted = .ok image ↔ ∃ lines l r, tokenize source = .ok lines ∧ layout lines wanted = .ok l ∧
      l.resolve = .ok r ∧ r.image = .ok image := by
  constructor
  · intro h
    obtain ⟨lines, hlines, h⟩ := bind_eq_ok.1 h
    obtain ⟨l, hl, h⟩ := bind_eq_ok.1 h
    obtain ⟨r, hr, himage⟩ := bind_eq_ok.1 h
    exact ⟨lines, l, r, hlines, hl, hr, himage⟩
  · rintro ⟨lines, l, r, hlines, hl, hr, himage⟩
    exact bind_eq_ok.2 ⟨lines, hlines, bind_eq_ok.2 ⟨l, hl, bind_eq_ok.2 ⟨r, hr, himage⟩⟩⟩

/-! ## Lines -/

theorem number_of_tokenizeLine {n : Nat} {cs : List Char} {line : Line} (h : Lexer.tokenizeLine n cs = .ok line) :
    line.number = n := by
  obtain ⟨pieces, -, h⟩ := bind_eq_ok.1 h
  obtain ⟨tokens, -, h⟩ := bind_eq_ok.1 h
  cases h
  rfl

theorem tokenize_pairwise {source : String} {lines : List Line} (h : tokenize source = .ok lines) :
    lines.Pairwise fun a b => a.number < b.number := by
  have hgo : ∀ (ls : List (List Char)) (k : Nat) (lines : List Line),
      List.Forall₂ (fun p line => Lexer.tokenizeLine (p.2 + 1) p.1 = .ok line) (ls.zipIdx k) lines →
        (lines.Pairwise fun a b => a.number < b.number) ∧ ∀ line ∈ lines, k < line.number := by
    intro ls
    induction ls with
    | nil =>
      intro k lines h
      cases h
      exact ⟨.nil, by simp⟩
    | cons l ls ih =>
      intro k lines h
      rw [List.zipIdx_cons] at h
      cases h with
      | cons hline hrest =>
        have hnumber := number_of_tokenizeLine hline
        obtain ⟨hpair, hall⟩ := ih (k + 1) _ hrest
        refine ⟨List.pairwise_cons.2 ⟨fun b hb => ?_, hpair⟩, List.forall_mem_cons.2 ⟨?_, fun b hb => ?_⟩⟩
        · have := hall b hb
          dsimp only at hnumber
          omega
        · dsimp only at hnumber
          omega
        · have := hall b hb
          omega
  obtain ⟨all, hall, h⟩ := bind_eq_ok.1 h
  cases h
  exact ((hgo _ 0 _ (mapM_eq_ok_iff.1 hall)).1).filter _

/-! ## Layout -/

theorem textLines_sublist (sections : Sections) (lines : List Line) : (sections.textLines lines).Sublist lines :=
  (List.drop_sublist _ _).trans (List.dropLast_sublist _)

theorem layout_ok {lines : List Line} {wanted : Option Nat} {l : Layout} (h : layout lines wanted = .ok l) :
    ∃ sections program data, checkSections lines = .ok sections ∧ checkMnemonics lines = .ok () ∧
      layoutProgram sections lines Symbols.predefined wanted = .ok program ∧
      layoutData (sections.dataLines lines) program.symbols = .ok data ∧
      l = ⟨program.slots, withEntry data.bytes
        ((program.globals.head?.bind fun (name, _) => data.symbols.label? name).getD 0), data.symbols,
        program.breakpoint⟩ := by
  obtain ⟨sections, hsections, h⟩ := bind_eq_ok.1 h
  obtain ⟨⟨⟩, hmnemonics, h⟩ := bind_eq_ok.1 h
  obtain ⟨program, hprogram, h⟩ := bind_eq_ok.1 h
  obtain ⟨data, hdata, h⟩ := bind_eq_ok.1 h
  cases h
  exact ⟨sections, program, data, hsections, hmnemonics, hprogram, hdata, rfl⟩

/-- A label of the text section is bound to the slot between the statements before its line and the others. -/
theorem layout_label {lines : List Line} {wanted : Option Nat} {l : Layout} {sections : Sections}
    (hlines : lines.Pairwise fun a b => a.number < b.number) (h : layout lines wanted = .ok l)
    (hsections : checkSections lines = .ok sections) {line : Line} (hline : line ∈ sections.textLines lines)
    {name : String} (hname : leadingLabel? line.tokens = some name) :
    ∃ index, l.symbols.label? name = some index ∧ Between l.slots.toList line.number index := by
  obtain ⟨sections', program, data, hsections', -, hprogram, hdata, rfl⟩ := layout_ok h
  obtain rfl : sections = sections' := Except.ok.inj (hsections.symm.trans hsections')
  obtain ⟨entry, hfold, -⟩ := layoutProgram_ok hprogram
  have hsub := textLines_sublist sections lines
  obtain ⟨index, hindex, hbetween⟩ := foldlM_add_label rfl (hlines.sublist hsub) hfold hline hname
  exact ⟨index, (layoutData_grows hdata).symbols name index hindex, hbetween⟩

/-! ## Image -/

/-- The slot of an image that a slot of the layout turns into. -/
def Resolves (symbols : Symbols) (p : Option Statement × Nat) (slot : Slot) : Prop :=
  match p.1 with
  | none => slot = .continuation
  | some st => ∃ args i, resolveArgs symbols (.ofFlow st.mnemonic.entry.flow p.2) st.args = .ok args ∧
      ({ st with args := args } : Statement).instruction = .ok i ∧ slot = .inst i

theorem resolves_iff {symbols : Symbols} {p : Option Statement × Nat} {slot : Slot} :
    (∃ o, p.1.mapM (Statement.resolve symbols p.2) = .ok o ∧ slotOf o = .ok slot) ↔ Resolves symbols p slot := by
  obtain ⟨o, index⟩ := p
  cases o with
  | none =>
    constructor
    · rintro ⟨o, ho, hslot⟩
      cases ho
      cases hslot
      rfl
    · rintro rfl
      exact ⟨none, rfl, rfl⟩
  | some st =>
    have hmap : ∀ x : Except Diagnostic Statement, (do let a ← x; pure (some a)) = x.map some := by
      intro x
      cases x <;> rfl
    change (∃ o, (do let a ← Statement.resolve symbols index st; pure (some a)) = .ok o ∧ slotOf o = .ok slot) ↔ _
    rw [hmap]
    constructor
    · rintro ⟨o, ho, hslot⟩
      obtain ⟨st', hst', rfl⟩ := map_eq_ok.1 ho
      obtain ⟨args, hargs, hst'⟩ := bind_eq_ok.1 hst'
      cases hst'
      obtain ⟨i, hi, hslot⟩ := bind_eq_ok.1 hslot
      cases hslot
      exact ⟨args, i, hargs, hi, rfl⟩
    · rintro ⟨args, i, hargs, hi, rfl⟩
      refine ⟨some { st with args := args }, map_eq_ok.2 ⟨_, bind_eq_ok.2 ⟨args, hargs, rfl⟩, rfl⟩, ?_⟩
      exact bind_eq_ok.2 ⟨i, hi, rfl⟩

/-- The slots of an image, in front of the filler. -/
theorem image_slots {l r : Layout} {image : Image} (hr : l.resolve = .ok r) (h : r.image = .ok image) :
    ∃ slots : List Slot, List.Forall₂ (Resolves l.symbols) l.slots.toList.zipIdx slots ∧
      image.program = filled slots.toArray ∧ image.codeLength = slots.length ∧ image.symbols = l.symbols ∧
      image.breakpoint = l.breakpoint ∧ image.data = Vector.ofFn (fun i => l.bytes[i.val]?.getD 0) ∧
      image.dataEnd = l.bytes.size := by
  obtain ⟨resolved, hresolved, hr⟩ := bind_eq_ok.1 hr
  cases hr
  obtain ⟨slots, hslots, h⟩ := bind_eq_ok.1 h
  cases h
  rw [mapM_eq_ok_iff] at hresolved hslots
  have hall : List.Forall₂ (Resolves l.symbols) l.slots.toList.zipIdx slots := by
    refine forall₂_comp (fun p slot h => ?_) hresolved hslots
    exact resolves_iff.1 h
  exact ⟨slots, hall, rfl, rfl, rfl, rfl, rfl, rfl⟩

/-- Slots that those of a layout turn into make an image. -/
theorem image_of_resolves {l : Layout} {slots : List Slot}
    (h : List.Forall₂ (Resolves l.symbols) l.slots.toList.zipIdx slots) :
    ∃ r, l.resolve = .ok r ∧ r.image = .ok ⟨filled slots.toArray, Vector.ofFn fun i => l.bytes[i.val]?.getD 0,
      l.breakpoint, l.symbols, slots.length, l.bytes.size⟩ := by
  obtain ⟨resolved, hresolved, hslots⟩ := forall₂_split (fun p slot hp => resolves_iff.2 hp) h
  refine ⟨_, bind_eq_ok.2 ⟨resolved, mapM_eq_ok_iff.2 hresolved, rfl⟩, ?_⟩
  exact bind_eq_ok.2 ⟨slots, mapM_eq_ok_iff.2 hslots, rfl⟩

theorem codeLength_eq {l r : Layout} {image : Image} (hr : l.resolve = .ok r) (h : r.image = .ok image) :
    image.codeLength = l.slots.size := by
  obtain ⟨slots, hslots, -, hlength, -⟩ := image_slots hr h
  have hlen := hslots.length_eq
  rw [List.length_zipIdx, Array.length_toList] at hlen
  rw [hlength, hlen]

theorem resolves_of_getElem? {l r : Layout} {image : Image} (hr : l.resolve = .ok r) (h : r.image = .ok image)
    {j : Nat} {o : Option Statement} (ho : l.slots[j]? = some o) :
    ∃ slot, image.program[j]? = some slot ∧ Resolves l.symbols (o, j) slot := by
  obtain ⟨slots, hslots, hprogram, -⟩ := image_slots hr h
  rw [List.forall₂_iff_get] at hslots
  obtain ⟨hlen, hget⟩ := hslots
  rw [Array.getElem?_eq_some_iff] at ho
  obtain ⟨hj, hoj⟩ := ho
  have hjs : j < slots.length := by
    rw [← hlen, List.length_zipIdx, Array.length_toList]
    exact hj
  have hres := hget j (by rw [List.length_zipIdx, Array.length_toList]; exact hj) hjs
  simp only [List.get_eq_getElem, List.getElem_zipIdx, Array.getElem_toList, hoj, Nat.zero_add] at hres
  refine ⟨slots[j], ?_, hres⟩
  rw [hprogram, filled, Array.getElem?_append_left (by simpa using hjs)]
  simp [hjs]

/-! ## Images given by their slots and data -/

/-- Whether the image of a source has these slots and data and no breakpoint, if there is one. -/
def assemblesTo (source : String) (slots : List Slot) (bytes : Array Byte) : Except Diagnostic Bool := do
  let l ← layout (← tokenize source) none
  let r ← l.resolve
  let found ← r.slots.toList.mapM slotOf
  return found == slots && r.bytes.toList == bytes.toList && r.breakpoint == none

theorem assemble_of_assemblesTo {source : String} {slots : List Slot} {bytes : Array Byte}
    (h : (assemblesTo source slots bytes).toOption = some true) : ∃ symbols, assemble source none = .ok
      ⟨filled slots.toArray, Vector.ofFn fun i => bytes[i.val]?.getD 0, none, symbols, slots.length, bytes.size⟩ := by
  cases hfound : assemblesTo source slots bytes with
  | error problem =>
    rw [hfound] at h
    cases h
  | ok same =>
    rw [hfound] at h
    cases h
    obtain ⟨lines, hlines, hfound⟩ := bind_eq_ok.1 hfound
    obtain ⟨l, hl, hfound⟩ := bind_eq_ok.1 hfound
    obtain ⟨r, hr, hfound⟩ := bind_eq_ok.1 hfound
    obtain ⟨found, hslots, hfound⟩ := bind_eq_ok.1 hfound
    have hsame := pure_eq_ok.1 hfound
    rw [Bool.and_eq_true_iff, Bool.and_eq_true_iff, beq_iff_eq, beq_iff_eq, beq_iff_eq] at hsame
    obtain ⟨⟨rfl, hbytes⟩, hbreakpoint⟩ := hsame
    refine ⟨r.symbols, assemble_eq_ok_iff.2 ⟨lines, l, r, hlines, hl, hr, bind_eq_ok.2 ⟨_, hslots, ?_⟩⟩⟩
    rw [← Array.toList_inj.1 hbytes, ← hbreakpoint]
    rfl

end Avr

import Avr.Proofs.Layout.Image
import Avr.Proofs.Token.Spelled

/-!
# The instructions of an image

* `layout_from` : every statement of a layout is one of a line;
* `spelled_of_layout` : its arguments are spelled;
* `accepted_of_resolves` : a statement with spelled arguments turns into an accepted instruction.
-/

namespace Avr

/-- What the slots of a layout are: those of statements, each of them one of a line. -/
theorem layout_blocks {lines : List Line} {wanted : Option Nat} {l : Layout} (h : layout lines wanted = .ok l) :
    ∃ sts : List Statement, l.slots.toList = sts.flatMap Statement.block ∧ ∀ st ∈ sts, ∃ line ∈ lines, st.From line := by
  obtain ⟨sections, program, data, -, -, hprogram, -, rfl⟩ := layout_ok h
  obtain ⟨entry, hfold, -⟩ := layoutProgram_ok hprogram
  obtain ⟨sts, hadds, hsts⟩ := ProgramState.foldlM_add_ok hfold
  refine ⟨sts, hadds.slots, fun st hst => ?_⟩
  obtain ⟨line, hline, hfrom⟩ := hsts st hst
  exact ⟨line, (textLines_sublist sections lines).subset hline, hfrom⟩

theorem layout_from {lines : List Line} {wanted : Option Nat} {l : Layout} (h : layout lines wanted = .ok l) {j : Nat}
    {st : Statement} (hst : l.slots[j]? = some (some st)) : ∃ line ∈ lines, st.From line := by
  obtain ⟨sts, hslots, hsts⟩ := layout_blocks h
  have hmem : some st ∈ l.slots.toList := Array.mem_toList_iff.2 (Array.mem_of_getElem? hst)
  rw [hslots, List.mem_flatMap] at hmem
  obtain ⟨st', hst', hblock⟩ := hmem
  rw [mem_block hblock]
  exact hsts st' hst'

theorem instruction_ok {s : Statement} {i : Instruction} (h : s.instruction = .ok i) :
    i.mnemonic = s.mnemonic ∧ i.line = s.line := by
  obtain ⟨ops, -, h⟩ := bind_eq_ok.1 h
  split at h
  · cases h
    exact ⟨rfl, rfl⟩
  · cases h

/-- A statement with spelled arguments turns into an accepted instruction. -/
theorem accepted_of_resolves {symbols : Symbols} {st : Statement} {j : Nat} {slot : Slot}
    (hst : ∀ t ∈ st.args, t.Spelled) (h : Resolves symbols (some st, j) slot) :
    ∃ i, slot = .inst i ∧ i.Accepted ∧ i.mnemonic = st.mnemonic ∧ i.line = st.line := by
  obtain ⟨args, i, hargs, hi, rfl⟩ := h
  have hkept := instruction_ok hi
  exact ⟨i, rfl, ⟨{ st with args := args }, resolveArgs_spelled hst hargs, hi⟩, hkept.1, hkept.2⟩

theorem spelled_of_layout {source : String} {lines : List Line} {wanted : Option Nat} {l : Layout}
    (hlines : tokenize source = .ok lines) (hl : layout lines wanted = .ok l) {j : Nat} {st : Statement}
    (hst : l.slots[j]? = some (some st)) : ∀ t ∈ st.args, t.Spelled := by
  obtain ⟨line, hline, hfrom⟩ := layout_from hl hst
  exact fun t ht => tokenize_spelled hlines line hline t (hfrom.2 t ht)

end Avr

import Avr.Proofs.Layout.Accepted
import Avr.Proofs.Machine.Transfer

/-!
# Labels are reached

* `Image.Begins` : the slot where the instructions from a line on begin; `begins_of_between` : a slot of the layout
  between the statements before the line and the others is that slot;
* `exists_instruction` : the instruction at a slot whose last argument is a label of the program;
* `step_reaches_label` : it goes to the slot where the instructions behind the label begin.
-/

namespace Avr

open Catalog

variable {γ : Type}

/-! ## Where the instructions from a line on begin -/

/-- All instructions in front of slot `target` are written before line `n`, and the slot holds an instruction written
on that line or behind it, unless it is the first one behind all code. -/
structure Image.Begins (image : Image) (n target : Nat) : Prop where
  before : ∀ j i, j < target → image.program[j]? = some (.inst i) → i.line < n
  first : target = image.codeLength ∨
    (target < image.codeLength ∧ ∃ i, image.program[target]? = some (.inst i) ∧ n ≤ i.line)

theorem line_of_resolves {symbols : Symbols} {o : Option Statement} {j : Nat} {i : Instruction}
    (h : Resolves symbols (o, j) (.inst i)) : ∃ st, o = some st ∧ i.line = st.line := by
  cases o with
  | none => cases h
  | some st =>
    obtain ⟨args, i', -, hi', heq⟩ := h
    cases heq
    exact ⟨st, rfl, (instruction_ok hi').2⟩

theorem begins_of_between {l r : Layout} {image : Image} (hr : l.resolve = .ok r) (h : r.image = .ok image) {n index : Nat}
    (hbetween : Between l.slots.toList n index) : image.Begins n index := by
  obtain ⟨before, after, hslots, rfl, hbefore, hafter⟩ := hbetween
  have hcode := codeLength_eq hr h
  have hsize : l.slots.size = (before.flatMap Statement.block).length + (after.flatMap Statement.block).length := by
    rw [← Array.length_toList, hslots, List.length_append]
  constructor
  · intro j i hj hi
    have ho : l.slots[j]? = some (before.flatMap Statement.block)[j] := by
      rw [← Array.getElem?_toList, hslots, List.getElem?_append_left hj, List.getElem?_eq_getElem hj]
    obtain ⟨slot, hslot, hres⟩ := resolves_of_getElem? hr h ho
    obtain rfl := Option.some.inj (hi.symm.trans hslot)
    obtain ⟨st, hst, hline⟩ := line_of_resolves hres
    have hmem : some st ∈ before.flatMap Statement.block := hst ▸ List.getElem_mem hj
    obtain ⟨st', hst', hblock⟩ := List.mem_flatMap.1 hmem
    rw [hline, mem_block hblock]
    exact hbefore st' hst'
  · cases after with
    | nil =>
      left
      rw [hcode, hsize, List.flatMap_nil, List.length_nil, Nat.add_zero]
    | cons st after =>
      right
      obtain ⟨rest, hblock, -⟩ := st.block_eq_cons
      rw [List.flatMap_cons, hblock] at hslots hsize
      have ho : l.slots[(before.flatMap Statement.block).length]? = some (some st) := by
        rw [← Array.getElem?_toList, hslots, List.getElem?_append_right (Nat.le_refl _), Nat.sub_self]
        rfl
      obtain ⟨slot, hslot, args, i, -, hi, rfl⟩ := resolves_of_getElem? hr h ho
      refine ⟨?_, i, hslot, ?_⟩
      · rw [hcode, hsize, List.cons_append, List.length_cons]
        omega
      · rw [(instruction_ok hi).2]
        exact hafter st List.mem_cons_self

/-! ## Instructions that go to a label -/

theorem operands_of_absolute {m : Mnemonic} {ops : List Operand} {k : Int} (hm : m.entry.flow = .absolute)
    (ha : Admitted m ops) (hk : ops.getLast? = some (.imm k)) : ops = [.imm k] := by
  cases m with
  | JMP | CALL =>
    obtain ⟨op, rfl, -⟩ := exists_of_admits_one rfl ha
    have hop : op = .imm k := Option.some.inj hk
    rw [hop]
  | _ => cases hm

/-- The instruction at a slot whose last argument is a label: accepted, with the label's number as last operand. -/
theorem exists_instruction {source : String} {lines : List Line} {wanted : Option Nat} {l r : Layout} {image : Image}
    (hlines : tokenize source = .ok lines) (hl : layout lines wanted = .ok l) (hr : l.resolve = .ok r)
    (h : r.image = .ok image) {index : Nat} {st : Statement} (hst : l.slots[index]? = some (some st)) {name : String}
    (hname : st.EndsInName name) {target : Nat} (htarget : l.symbols.label? name = some target) :
    ∃ i, image.program[index]? = some (.inst i) ∧ i.Accepted ∧ i.mnemonic = st.mnemonic ∧
      i.operands.getLast? = some (.imm ((Reference.ofFlow st.mnemonic.entry.flow index).number target)) := by
  obtain ⟨slot, hslot, hres⟩ := resolves_of_getElem? hr h hst
  obtain ⟨i, rfl, haccepted, hmnemonic, -⟩ := accepted_of_resolves (spelled_of_layout hlines hl hst) hres
  obtain ⟨args, i', hargs, hi', heq⟩ := hres
  cases heq
  exact ⟨i, hslot, haccepted, hmnemonic, getLast?_operands hname htarget hargs hi'⟩

/-- An instruction with a target and a label of the text section as that target. The label is bound to the slot where
the instructions behind it begin. The field of a relative instruction holds the distance from the next slot, and if the
label lies in flash, a step that transfers control there leaves the machine running at the label. -/
theorem step_reaches_label [Console γ] {source : String} {lines : List Line} {wanted : Option Nat} {sections : Sections}
    {l : Layout} {image : Image} (hlines : tokenize source = .ok lines) (hsections : checkSections lines = .ok sections)
    (hl : layout lines wanted = .ok l) (himage : assemble source wanted = .ok image) {index : Nat} {st : Statement}
    (hst : l.slots[index]? = some (some st)) (hflow : st.mnemonic.entry.flow ≠ .sequential) {name : String}
    (hname : st.EndsInName name) {line : Line} (hline : line ∈ sections.textLines lines)
    (hlabel : leadingLabel? line.tokens = some name) :
    ∃ target i, image.symbols.label? name = some target ∧ image.program[index]? = some (.inst i) ∧
      i.mnemonic = st.mnemonic ∧ image.Begins line.number target ∧
      (st.mnemonic.entry.flow = .relative → i.offset? = some ((target : Int) - index - 1)) ∧
      ∀ m : Machine γ, target < flashSize → m.image = image → m.pc = index → m.AboutTo i → m.Transfers i →
        m.step.pc = target ∧ m.step.condition = .running := by
  obtain ⟨lines', l', r, hlines', hl', hr, h⟩ := assemble_eq_ok_iff.1 himage
  obtain rfl : lines = lines' := Except.ok.inj (hlines.symm.trans hlines')
  obtain rfl : l = l' := Except.ok.inj (hl.symm.trans hl')
  obtain ⟨target, htarget, hbetween⟩ := layout_label (tokenize_pairwise hlines) hl hsections hline hlabel
  obtain ⟨i, hi, haccepted, hmnemonic, hlast⟩ := exists_instruction hlines hl hr h hst hname htarget
  have hsymbols : image.symbols = l.symbols := by
    obtain ⟨slots, -, -, -, hsymbols, -⟩ := image_slots hr h
    exact hsymbols
  refine ⟨target, i, by rw [hsymbols, htarget], hi, hmnemonic, begins_of_between hr h hbetween, ?_, ?_⟩
  · intro hrelative
    rw [hrelative] at hlast
    rw [← hmnemonic] at hrelative
    exact offset?_eq (relative_of_admitted hrelative haccepted.admitted hlast) haccepted.encode
  · intro m hflash _ hpc habout htransfers
    cases hcase : st.mnemonic.entry.flow with
    | sequential => exact absurd hcase hflow
    | relative =>
      rw [hcase] at hlast
      rw [← hmnemonic] at hcase
      have hrelative := relative_of_admitted hcase haccepted.admitted hlast
      refine Machine.step_relative habout hrelative htransfers ?_ hflash
      rw [hpc, Reference.ofFlow, Reference.number]
      omega
    | absolute =>
      rw [hcase] at hlast
      rw [← hmnemonic] at hcase
      have hops := operands_of_absolute hcase haccepted.admitted hlast
      exact Machine.step_absolute habout hcase hops htransfers hflash

/-- A branch over an instruction of two words. -/
def forwardBranch : String := ".section .text\n.global main\nmain: BRNE done\nJMP main\ndone: NOP\n.end"

def forwardLines : List Line := [
  ⟨1, [⟨.dir .header, ".section", ⟨1, 1⟩⟩, ⟨.dir .text, ".text", ⟨1, 10⟩⟩]⟩,
  ⟨2, [⟨.dir .global, ".global", ⟨2, 1⟩⟩, ⟨.ref "main", "main", ⟨2, 9⟩⟩]⟩,
  ⟨3, [⟨.label "main", "main:", ⟨3, 1⟩⟩, ⟨.inst "BRNE", "BRNE", ⟨3, 7⟩⟩, ⟨.ref "done", "done", ⟨3, 12⟩⟩]⟩,
  ⟨4, [⟨.inst "JMP", "JMP", ⟨4, 1⟩⟩, ⟨.ref "main", "main", ⟨4, 5⟩⟩]⟩,
  ⟨5, [⟨.label "done", "done:", ⟨5, 1⟩⟩, ⟨.inst "NOP", "NOP", ⟨5, 7⟩⟩]⟩,
  ⟨6, [⟨.dir .finish, ".end", ⟨6, 1⟩⟩]⟩]

theorem step_reaches_label_forward : ∃ (image : Image) (m : Machine (Array Byte)),
    assemble forwardBranch none = .ok image ∧ m.image = image ∧ m.pc = 0 ∧ m.step.pc = 3 ∧
      m.step.condition = .running := by
  have hlines : tokenize forwardBranch = .ok forwardLines := by decide +kernel
  have hsections : checkSections forwardLines = .ok ⟨none, 0⟩ := by decide +kernel
  have hlayout : (match layout forwardLines none with
      | .ok l => l.slots[0]? == some (some ⟨.BRNE, ⟨3, 7⟩, [⟨.ref "done", "done", ⟨3, 12⟩⟩], 3⟩)
      | .error _ => false) = true := by decide +kernel
  have hassemble : (match assemble forwardBranch none with
      | .ok image => image.breakpoint == none && image.symbols.label? "done" == some 3
      | .error _ => false) = true := by decide +kernel
  have hline : (⟨5, [⟨.label "done", "done:", ⟨5, 1⟩⟩, ⟨.inst "NOP", "NOP", ⟨5, 7⟩⟩]⟩ : Line) ∈
      (⟨none, 0⟩ : Sections).textLines forwardLines := by decide +kernel
  have hstatus : ({ cells := Vector.replicate ramSize 0 } : Memory).read statusCell = 0 := by decide +kernel
  split at hlayout
  · next l hl =>
    split at hassemble
    · next image himage =>
      obtain ⟨hbreakpoint, hdone⟩ := Bool.and_eq_true_iff.1 hassemble
      obtain ⟨target, i, htarget, hi, hmnemonic, -, -, hstep⟩ :=
        step_reaches_label (γ := Array Byte) hlines hsections hl himage (eq_of_beq hlayout) nofun
          ⟨[], _, rfl, .inl rfl, rfl⟩ hline rfl
      obtain rfl : target = 3 := Option.some.inj (htarget.symm.trans (eq_of_beq hdone))
      let m : Machine (Array Byte) :=
        { image := image, limit := none, memory := { cells := Vector.replicate ramSize 0 }, pc := 0, console := #[] }
      have hflash : m.pc < flashEnd := show 0 < flashEnd by decide
      have hstop : image.breakpoint ≠ some 0 := by rw [eq_of_beq hbreakpoint]; exact nofun
      have habout : m.AboutTo i := ⟨hi, rfl, hstop, hflash, rfl⟩
      have hflag : m.flag .Z = false := by
        rw [Machine.flag, Machine.sreg, hstatus]
        rfl
      have htransfers : m.Transfers i := by
        unfold Machine.Transfers Instruction.branchesOn?
        rw [hmnemonic]
        exact ⟨.Z, false, rfl, hflag⟩
      exact ⟨image, m, himage, rfl, rfl, hstep m (by decide) rfl rfl habout htransfers⟩
    · cases hassemble
  · cases hlayout

end Avr

import Avr.Proofs.Machine.Edits
import Avr.Proofs.Machine.Reachable
import Avr.Snapshot

/-!
# Changes of data memory

* `Operation.run_edits`, `Operation.run_once` : what operations write; only those that move a pointer may write a cell
  twice;
* `movesPointer_of_does` : the instructions that move a pointer;
* `perform_writes` : what an instruction writes; `changes_tracked` : the changes of a step, and of what a host writes
  behind it.
-/

namespace Avr

variable {γ : Type}

/-! ## Operations -/

open Memory Machine

/-- The access gives its pointer a new value. -/
def Access.Moves : Access → Prop
  | pointer _ mode _ => mode = .postInc ∨ mode = .preDec
  | direct _ => False

def Operation.Moves : Operation → Prop
  | load _ a | store a _ => a.Moves
  | _ => False

namespace Access

variable {a : Access}

theorem update_of_not_moves (ha : ¬ a.Moves) (m m' : Machine γ) : a.update m m' = m' := by
  cases a with
  | direct a => rfl
  | pointer p mode h =>
    obtain ⟨hinc, hdec⟩ := not_or.1 ha
    cases mode with
    | plain | disp q => rfl
    | postInc => exact absurd rfl hinc
    | preDec => exact absurd rfl hdec

theorem exists_update (a : Access) (m m' : Machine γ) : ∃ es, (a.update m m').memory = m'.memory.edited es := by
  cases a with
  | direct a => exact ⟨[], rfl⟩
  | pointer p mode h =>
    show ∃ es, (m'.updatePointer p (m.address p mode).2).memory = _
    cases (m.address p mode).2 with
    | none => exact ⟨[], rfl⟩
    | some w => exact ⟨[.pair p.lowRegister w], rfl⟩

end Access

namespace Machine

variable {m m' : Machine γ} {W : List Nat}

theorem once_write (m : Machine γ) (a : Nat) (v : Byte) : Once [a] m.memory (m.write a v).memory :=
  (Once.refl m.memory).write List.not_mem_nil v

theorem once_writePair (m : Machine γ) (a : Nat) (w : Word) : Once [a + 1, a] m.memory (m.writePair a w).memory :=
  (Once.refl m.memory).writePair List.not_mem_nil List.not_mem_nil w

theorem once_setSreg (h : Once W m.memory m'.memory) (hW : ∀ a ∈ W, a < statusCell) (s : Status) :
    ∃ W', Once W' m.memory (m'.setSreg s).memory :=
  ⟨_, h.write (fun hmem => Nat.lt_irrefl _ (hW _ hmem)) s⟩

theorem once_setSp (h : Once W m.memory m'.memory) (hW : ∀ a ∈ W, stackHighCell < a) (w : Word) :
    ∃ W', Once W' m.memory (m'.setSp w).memory := by
  have hlow : stackLowCell < stackHighCell := by decide
  exact ⟨_, h.writePair (fun hmem => Nat.lt_asymm hlow (hW _ hmem)) (fun hmem => Nat.lt_irrefl _ (hW _ hmem)) w⟩

/-- What printing leaves in registers is written to each of them once. -/
theorem once_afterPrint (m : Machine γ) (length : Nat) : ∃ W, Once W m.memory (m.afterPrint length).memory := by
  have hmemory (rs : List Nat) (n : Machine γ) :
      (rs.foldl (fun n r => n.write r 0xFF) n).memory = rs.foldl (fun n r => n.write r 0xFF) n.memory := by
    induction rs generalizing n with
    | nil => rfl
    | cons r rs ih => exact ih (n.write r 0xFF)
  have hcount := (once_write m PseudoFunc.countRegisters.1 (lowByte (BitVec.ofNat 16 length))).write
    (a := PseudoFunc.countRegisters.2) (by decide) (highByte (BitVec.ofNat 16 length))
  obtain ⟨W, h⟩ := hcount.writeAll (show PseudoFunc.clobbered.Nodup by decide) (by decide) 0xFF
  refine ⟨W, ?_⟩
  unfold afterPrint
  rw [hmemory]
  exact h

/-- An exchange of a register with a cell, which may be the register itself. -/
theorem once_exchange (m : Machine γ) (c r : Nat) :
    ∃ W, Once W m.memory ((m.write c (m.register r)).write r (m.memory.read c)).memory := by
  by_cases hc : c = r
  · subst hc
    have hsame : (m.write c (m.register c)).memory.read c = m.memory.read c := by
      show (m.memory.write c (m.memory.read c)).read c = m.memory.read c
      rw [read_write, ite_self]
    exact ⟨_, (once_write m c _).write_same hsame _⟩
  · exact ⟨_, (once_write m c _).write (mt List.mem_singleton.1 (Ne.symm hc)) _⟩

end Machine

namespace Operation

variable [Console γ] {op : Operation} {m m' : Machine γ} {c : Control}

/-- An operation that moves no pointer writes every cell while it has its old value. -/
theorem run_once (h : op.run m = some (.ok c m')) (hop : ¬ op.Moves) : ∃ W, Once W m.memory m'.memory := by
  have hregisters : 32 < stackLowCell := by decide
  have hstack : stackLowCell + 1 < statusCell := by decide
  have hhigh : stackHighCell = stackLowCell + 1 := rfl
  have hdata : statusCell < ramStart := by decide
  have hrefl : ∃ W, Once W m.memory m.memory := ⟨_, Once.refl m.memory⟩
  cases op with
  | combine d s f | modify d f =>
    cases h
    exact once_setSreg (once_write m d _) (by simp; omega) _
  | compare d s f | assignFlag b v | storeBit r n =>
    cases h
    exact ⟨_, once_write m _ _⟩
  | assign d s | swap d | loadBit d n =>
    cases h
    exact ⟨_, once_write m _ _⟩
  | copyPair d r =>
    cases h
    exact ⟨_, once_writePair m _ _⟩
  | multiply d r f =>
    cases h
    exact once_setSreg (once_writePair m 0 _) (by decide) _
  | combineWord d k f =>
    cases h
    exact once_setSreg (once_writePair m d _) (by simp; omega) _
  | branch b v t =>
    rw [run] at h
    split at h
    · obtain ⟨k, -, h⟩ := Option.map_eq_some_iff.1 h
      obtain ⟨rfl, -⟩ := Machine.jumpTo_ok h
      exact hrefl
    · cases h
      exact hrefl
  | skip t =>
    obtain ⟨taken, -, h⟩ := Option.bind_eq_some_iff.1 h
    split at h
    · obtain ⟨rfl, -⟩ := Machine.skipped?_ok h
      exact hrefl
    · cases h
      exact hrefl
  | assignIoBit a n v | input d a | output a r =>
    rw [run] at h
    obtain ⟨cell, -, h⟩ := Option.map_eq_some_iff.1 h
    cases h
    exact ⟨_, once_write m _ _⟩
  | load d a =>
    obtain ⟨cell, -, h⟩ := Option.map_eq_some_iff.1 h
    obtain ⟨rfl, rfl⟩ := Machine.withCell_ok h
    rw [a.update_of_not_moves hop]
    exact ⟨_, once_write m _ _⟩
  | store a r =>
    obtain ⟨cell, -, h⟩ := Option.map_eq_some_iff.1 h
    obtain ⟨rfl, rfl⟩ := Machine.withCell_ok h
    rw [a.update_of_not_moves hop]
    exact ⟨_, once_write m _ _⟩
  | exchange r =>
    obtain ⟨rfl, rfl⟩ := Machine.withCell_ok (Option.some.inj h)
    exact once_exchange m _ r
  | push r =>
    obtain ⟨rfl, hlow, below, rfl⟩ := Machine.pushed?_ok h
    exact once_setSp (once_write m m.sp.toNat _) (by simp; omega) _
  | pop d =>
    obtain ⟨rfl, top, v, rfl⟩ := Machine.popped?_ok h
    exact ⟨_, (once_writePair m stackLowCell top).write (by simp; omega) _⟩
  | jump t =>
    obtain ⟨k, -, h⟩ := Option.map_eq_some_iff.1 h
    obtain ⟨rfl, -⟩ := Machine.jumpTo_ok h
    exact hrefl
  | call t width =>
    obtain ⟨k, -, h⟩ := Option.bind_eq_some_iff.1 h
    obtain ⟨⟨-, -, rfl⟩, hroom, low, high, below, rfl⟩ := Machine.called?_ok h
    have hbytes := (once_write m m.sp.toNat low).write (a := m.sp.toNat - 1) (by simp; omega) high
    exact once_setSp hbytes (by simp; omega) _
  | print =>
    obtain ⟨rfl, text, rfl⟩ := Machine.printed?_ok h
    exact once_afterPrint { m with console := Console.emit m.console text } text.length
  | ret enable =>
    obtain ⟨rfl, rfl⟩ | ⟨target, top, -, rfl, rfl⟩ := Machine.returned?_ok h
    · exact hrefl
    · cases enable with
      | true => exact once_setSreg (once_writePair m stackLowCell top) (by decide) _
      | false => exact ⟨_, once_writePair m stackLowCell top⟩
  | stop | nothing =>
    cases h
    exact hrefl

theorem run_edits (h : op.run m = some (.ok c m')) : ∃ es, m'.memory = m.memory.edited es := by
  by_cases hop : op.Moves
  · cases op with
    | load d a =>
      obtain ⟨cell, -, h⟩ := Option.map_eq_some_iff.1 h
      obtain ⟨rfl, rfl⟩ := Machine.withCell_ok h
      obtain ⟨es, hes⟩ := a.exists_update m m
      refine ⟨es ++ [.cell d (m.memory.read cell)], ?_⟩
      rw [edited_concat, ← hes]
      rfl
    | store a r =>
      obtain ⟨cell, -, h⟩ := Option.map_eq_some_iff.1 h
      obtain ⟨rfl, rfl⟩ := Machine.withCell_ok h
      obtain ⟨es, hes⟩ := a.exists_update m (m.write cell (m.register r))
      exact ⟨.cell cell (m.register r) :: es, hes⟩
    | _ => exact hop.elim
  · obtain ⟨W, honce⟩ := run_once h hop
    exact honce.edits

end Operation

/-! ## Instructions that move a pointer -/

/-- A load or store that gives its pointer a new value. -/
def Instruction.MovesPointer (i : Instruction) : Prop :=
  i.mnemonic ∈ [.LD, .ST] ∧ ∃ p mode, (mode = .postInc ∨ mode = .preDec) ∧ .ptr p mode ∈ i.operands

theorem exists_of_pointer? {op : Operand} {a : Access} (h : op.pointer? = some a) (ha : a.Moves) :
    ∃ p mode, (mode = .postInc ∨ mode = .preDec) ∧ op = .ptr p mode := by
  unfold Operand.pointer? at h
  split at h
  · split at h
    · cases h
      exact ⟨_, _, ha, rfl⟩
    · cases h
  · cases h

theorem not_moves_of_direct? {op : Operand} {a : Access} (h : op.direct? = some a) : ¬ a.Moves := by
  unfold Operand.direct? at h
  split at h
  · split at h
    · cases h
      exact id
    · cases h
  · cases h

theorem not_moves_of_displaced {op : Operand} {a : Access} (hop : Catalog.Place.pointerDisp.Admits op)
    (h : op.pointer? = some a) : ¬ a.Moves := by
  intro ha
  obtain ⟨p, q, rfl, -⟩ := hop.pointerDisp
  obtain ⟨p', mode, hmode, heq⟩ := exists_of_pointer? h ha
  cases heq
  rcases hmode with h | h <;> cases h

theorem not_moves_of_callOrPrint? {p : Operand → Option Target} {width : Fin 3} {ops : List Operand} {op : Operation}
    (h : callOrPrint? p width ops = some op) : ¬ op.Moves := by
  unfold callOrPrint? at h
  split at h
  · cases h
    exact id
  · obtain ⟨a, t, -, -, rfl⟩ := exists_of_one? h
    exact id

/-- Of the instructions that can be out of range, only loads and stores can move a pointer. -/
theorem movesPointer_of_does {i : Instruction} {op : Operation} (ha : Admitted i.mnemonic i.operands) (hop : i.Does op)
    (hm : op.Moves) : i.MovesPointer := by
  have hraises : op.Raises (.addressOutOfRange 0) := by
    cases op with
    | load d a | store a r => trivial
    | _ => exact hm.elim
  have hmn := hop.raises _ hraises
  have hdecoded := hop.decoded
  obtain ⟨mn, ops, o, l⟩ := i
  simp only [Instruction.CanRaise, List.mem_cons, List.not_mem_nil, or_false] at hmn
  rcases hmn with rfl | rfl | rfl | rfl | rfl | rfl | rfl | rfl | rfl | rfl | rfl
  · obtain ⟨a, b, d, access, rfl, -, hb, rfl⟩ := exists_of_two? hdecoded
    obtain ⟨p, mode, hmode, rfl⟩ := exists_of_pointer? hb hm
    exact ⟨by simp, p, mode, hmode, by simp⟩
  · obtain ⟨a, b, d, access, rfl, -, hb, rfl⟩ := exists_of_two? hdecoded
    obtain ⟨reg, ptr, hops, -, hptr⟩ := exists_of_admits_two rfl ha
    cases hops
    exact absurd hm (not_moves_of_displaced hptr hb)
  · obtain ⟨a, b, access, r, rfl, hb, -, rfl⟩ := exists_of_two? hdecoded
    obtain ⟨p, mode, hmode, rfl⟩ := exists_of_pointer? hb hm
    exact ⟨by simp, p, mode, hmode, by simp⟩
  · obtain ⟨a, b, access, r, rfl, hb, -, rfl⟩ := exists_of_two? hdecoded
    obtain ⟨ptr, reg, hops, hptr, -⟩ := exists_of_admits_two rfl ha
    cases hops
    exact absurd hm (not_moves_of_displaced hptr hb)
  · obtain ⟨a, b, x, r, rfl, -, -, rfl⟩ := exists_of_two? hdecoded
    exact hm.elim
  · obtain ⟨a, b, d, access, rfl, -, hb, rfl⟩ := exists_of_two? hdecoded
    exact absurd hm (not_moves_of_direct? hb)
  · obtain ⟨a, b, access, r, rfl, hb, -, rfl⟩ := exists_of_two? hdecoded
    exact absurd hm (not_moves_of_direct? hb)
  · obtain ⟨a, r, rfl, -, rfl⟩ := exists_of_one? hdecoded
    exact hm.elim
  · exact absurd hm (not_moves_of_callOrPrint? hdecoded)
  · exact absurd hm (not_moves_of_callOrPrint? hdecoded)
  · cases hdecoded
    exact hm.elim

/-! ## Steps -/

namespace Machine

theorem memory_proceed (m : Machine γ) (i : Instruction) (c : Control) : (m.proceed i c).memory = m.memory := by
  cases c <;> rfl

variable [Console γ] {image : Image} {m : Machine γ} {i : Instruction}

/-- An instruction of a well-formed image writes some cells, each while it has its old value unless the instruction
moves a pointer. One that fails writes none. -/
theorem perform_writes (hw : image.WellFormed) (himage : m.image = image) (h : m.AboutTo i) :
    (∃ es, (m.cleared.perform i).memory = m.memory.clearChanges.edited es) ∧
      (¬ i.MovesPointer → ∃ W, Once W m.memory.clearChanges (m.cleared.perform i).memory) := by
  have hmem : .inst i ∈ image.program := himage ▸ Array.mem_of_getElem? h.fetched
  have ha := hw.admitted_of_mem hmem
  obtain ⟨op, hop⟩ := exists_does ha
  have hrun := hop.run (m.ready i) (inside_of_lt hw himage h.inFlash)
  cases hresult : execute i (m.ready i) with
  | ok c m' =>
    rw [hresult] at hrun
    rw [perform_ok hresult, memory_proceed]
    exact ⟨Operation.run_edits hrun,
      fun hi => Operation.run_once hrun fun hm => hi (movesPointer_of_does ha hop hm)⟩
  | error f m' =>
    rw [hresult] at hrun
    have hmemory : m'.memory = m.memory.clearChanges := by
      obtain ⟨-, rfl | rfl⟩ := Operation.run_error hrun <;> rfl
    rw [perform_error hresult]
    show (∃ es, m'.memory = _) ∧ (_ → ∃ W, Once W _ m'.memory)
    rw [hmemory]
    exact ⟨⟨[], rfl⟩, fun _ => ⟨[], .refl _⟩⟩

/-- Change tracking misses nothing. After any writes behind a clear the changed bits of a cell are those that differ
between one of its values and the next, and a snapshot shows them for the registers and the status register. An
instruction of an assembled image is such writes, whatever a host writes behind it. So a step marks all bits in which a
cell differs from before, and no others unless its instruction moves a pointer. -/
theorem changes_tracked {source : String} {wanted : Option Nat} (h : assemble source wanted = .ok image)
    (himage : m.image = image) (habout : m.AboutTo i) :
    (∀ (m₀ : Memory) (es : List Edit), Tracked m₀.clearChanges es (m₀.clearChanges.edited es) ∧
      ∀ n : Machine γ, n.memory = m₀.clearChanges.edited es →
        (Snapshot.of n).registerChanges = (List.range registerCount).map (m₀.clearChanges.flips es) ∧
          (Snapshot.of n).sregChanges = m₀.clearChanges.flips es statusCell) ∧
    (∃ es, ∀ es', Tracked m.memory.clearChanges (es ++ es') (m.step.memory.edited es')) ∧
    (∀ a k, (m.step.memory.read a).getLsbD k ≠ (m.memory.read a).getLsbD k →
      (m.step.memory.changed a).getLsbD k = true) ∧
    (¬ i.MovesPointer → ∀ a, m.step.memory.changed a = m.memory.read a ^^^ m.step.memory.read a) := by
  have hstep : m.step = m.cleared.perform i := step_eq_perform habout
  obtain ⟨⟨es, hes⟩, honce⟩ := perform_writes (wellFormed_of_assemble h) himage habout
  rw [← hstep] at hes honce
  refine ⟨fun m₀ es => ⟨tracked_edited m₀ es, fun n hn => ?_⟩, ⟨es, fun es' => ?_⟩, ?_, fun hi a => ?_⟩
  · have hunion : n.memory.changed = m₀.clearChanges.flips es := by
      funext a
      rw [hn]
      exact (tracked_edited m₀ es).union a
    exact ⟨congrArg (List.map · (List.range registerCount)) hunion, congrFun hunion statusCell⟩
  · rw [hes, ← edited_append]
    exact tracked_edited m.memory (es ++ es')
  · rw [hes]
    exact (tracked_edited m.memory es).covers
  · obtain ⟨W, hW⟩ := honce hi
    rw [hW.marks a, changed_clearChanges]
    exact BitVec.or_zero

def loadSource : String := ".section .text
.global main
main: LDI R16, 0x0F
.end"

def loadInstruction : Instruction := ⟨.LDI, [.reg 16, .imm 15], "1110000000001111", 3⟩

def loadImage (symbols : Symbols) : Image :=
  let bytes : Array Byte := Array.replicate ramStart 0
  ⟨filled [Slot.inst loadInstruction].toArray, Vector.ofFn fun i => bytes[i.val]?.getD 0, none, symbols, 1, bytes.size⟩

theorem assemble_load : ∃ symbols, assemble loadSource none = .ok (loadImage symbols) := by
  apply assemble_of_assemblesTo
  decide +kernel

theorem aboutTo_load (symbols : Symbols) :
    (start (loadImage symbols) none (#[] : Array Byte)).AboutTo loadInstruction := by
  have hpc : (start (loadImage symbols) none (#[] : Array Byte)).pc = 0 := by
    simp [pc_start, loadImage, Memory.readPair, Memory.read_ofFn, entryLowCell, ramSize, ramStart, wordOf]
  refine ⟨?_, rfl, (Option.some_ne_none _).symm, ?_, rfl⟩
  · rw [hpc]
    show (filled [Slot.inst loadInstruction].toArray)[0]? = _
    rw [filled, Array.getElem?_append_left (by decide)]
    rfl
  · rw [hpc]
    decide

/-- The first step loads a register that was zero, and the host writes it once more. -/
theorem changes_tracked_load : ∃ symbols, let m := start (loadImage symbols) none (#[] : Array Byte)
    assemble loadSource none = .ok (loadImage symbols) ∧ m.AboutTo loadInstruction ∧ ¬ loadInstruction.MovesPointer ∧
      m.step.memory.changed 16 = m.memory.read 16 ^^^ m.step.memory.read 16 ∧ m.step.memory.changed 16 = 0x0F ∧
      ∃ es, Tracked m.memory.clearChanges (es ++ [.cell 16 0x1E]) (m.step.memory.edited [.cell 16 0x1E]) := by
  obtain ⟨symbols, hassemble⟩ := assemble_load
  refine ⟨symbols, ?_⟩
  intro m
  have habout : m.AboutTo loadInstruction := aboutTo_load symbols
  have hmoves : ¬ loadInstruction.MovesPointer := fun h => absurd h.1 (by decide)
  obtain ⟨-, ⟨es, htracked⟩, -, hmarks⟩ := changes_tracked hassemble (show m.image = loadImage symbols from rfl) habout
  have hnew : m.step.memory.read 16 = 0x0F := by
    rw [step_eq_perform habout]
    show (m.memory.clearChanges.write 16 0x0F).read 16 = 0x0F
    rw [read_write, if_pos (by decide)]
  have hold : m.memory.read 16 = 0 := by
    show ((((({ cells := (loadImage symbols).data } : Memory).write entryLowCell _).write (entryLowCell + 1) _).write
      stackLowCell _).write (stackLowCell + 1) _).read 16 = 0
    rw [read_write, if_neg (by decide), read_write, if_neg (by decide), read_write, if_neg (by decide), read_write,
      if_neg (by decide)]
    refine (read_ofFn _ (by decide)).trans ?_
    simp [ramStart]
  exact ⟨hassemble, habout, hmoves, hmarks hmoves 16, by rw [hmarks hmoves, hnew, hold]; rfl, es, htracked _⟩

end Machine

end Avr

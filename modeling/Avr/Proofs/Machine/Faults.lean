import Avr.Proofs.Machine.Reachable

/-!
# Steps that fail

* `Machine.Untouched` : a machine in which data memory, program counter and console are as in another one;
* `Steps.untouched`, `step_atomic` : a step that fails changes none of them;
* `Steps.fault_cases` : a step fails before it executes an instruction, or with a fault of that instruction;
* `step_checked` : what the assembler checks is what the instructions rely on.
-/

namespace Avr.Machine

variable {γ : Type} {image : Image} {m m' : Machine γ} {f : Fault}

/-! ## What a failed step leaves alone -/

/-- The second machine is as the first one but for condition, changes of cells, statistics and counts. -/
structure Untouched (m m' : Machine γ) : Prop where
  cells : m'.memory.cells = m.memory.cells
  pc : m'.pc = m.pc
  console : m'.console = m.console
  image : m'.image = m.image
  limit : m'.limit = m.limit

theorem Untouched.refl (m : Machine γ) : m.Untouched m := ⟨rfl, rfl, rfl, rfl, rfl⟩

theorem Untouched.fail (h : m.Untouched m') (f : Fault) : m.Untouched (m'.fail f) :=
  ⟨h.cells, h.pc, h.console, h.image, h.limit⟩

theorem untouched_cleared (m : Machine γ) : m.Untouched m.cleared := ⟨rfl, rfl, rfl, rfl, rfl⟩

theorem untouched_ready (m : Machine γ) (i : Instruction) : m.Untouched (m.ready i) := ⟨rfl, rfl, rfl, rfl, rfl⟩

theorem Untouched.countTaken (h : m.Untouched m') (cycles : Nat) : m.Untouched (m'.countTaken cycles) :=
  ⟨h.cells, h.pc, h.console, h.image, h.limit⟩

theorem proceed_condition {i : Instruction} (h : m.AboutTo i) (hframe : (m.ready i).Frame m') (c : Control) :
    (m'.proceed i c).condition ≠ .errored f := by
  have hcondition : m'.condition = .running := hframe.condition.trans h.running
  cases c with
  | next | jump target =>
    change m'.condition ≠ _
    rw [hcondition]
    exact nofun
  | stop => exact nofun

theorem Steps.untouched [Console γ] (h : m.Steps m') (hw : image.WellFormed) (himage : m.image = image)
    (hf : m'.condition = .errored f) : m.Untouched m' := by
  cases h with
  | stopped _ => exact .refl m
  | breakpoint | flashEnd => cases hf
  | limit _ => exact (Untouched.refl m).fail _
  | outside _ _ | continuation _ => exact (untouched_cleared m).fail _
  | execution habout =>
    obtain ⟨c, n, hframe, -, heq⟩ | ⟨g, n, -, rfl | rfl, heq⟩ := perform_cases hw himage habout
    · exact absurd (heq ▸ hf) (proceed_condition habout hframe c)
    · exact heq ▸ (untouched_ready m _).fail g
    · exact heq ▸ ((untouched_ready m _).countTaken 1).fail g

/-- A step that ends in error leaves data memory, program counter and console as they were. -/
theorem step_atomic [Console γ] {source : String} {wanted : Option Nat} (h : assemble source wanted = .ok image)
    (hm : m.ReachableFrom image) (hf : m.step.condition = .errored f) : m.Untouched m.step :=
  (steps_step m).untouched (wellFormed_of_assemble h) (hm.sound h).1 hf

/-- A store to the first address behind data memory. -/
def storeBehind : String := ".section .text\n.global main\nmain: STS 0x900, R0\n.end"

def storeStatement : Statement :=
  ⟨.STS, ⟨3, 7⟩, [⟨.int 0x900, "0x900", ⟨3, 11⟩⟩, ⟨.comma, ",", ⟨3, 16⟩⟩, ⟨.reg 0, "R0", ⟨3, 18⟩⟩], 3⟩

theorem aboutTo_storeBehind : ∃ (image : Image) (o : String), assemble storeBehind none = .ok image ∧
    (start image none #[] : Machine (Array Byte)).AboutTo ⟨.STS, [.imm 0x900, .reg 0], o, 3⟩ := by
  have hassemble : (match assemble storeBehind none with
      | .ok image => image.breakpoint == none && image.symbols.label? "main" == some 0
      | .error _ => false) = true := by decide +kernel
  have htokenize : (match tokenize storeBehind with
      | .ok lines => (lines.findSome? fun line => globalName? line.tokens) == some ("main", ⟨2, 9⟩) &&
        (match layout lines none with
          | .ok l => l.slots[0]? == some (some storeStatement) &&
            (match resolveArgs l.symbols (.ofFlow .sequential 0) storeStatement.args with
              | .ok args => args == storeStatement.args
              | .error _ => false)
          | .error _ => false)
      | .error _ => false) = true := by decide +kernel
  split at hassemble
  · next image himage =>
    obtain ⟨hbreakpoint, hmain⟩ := Bool.and_eq_true_iff.1 hassemble
    obtain ⟨lines, l, r, hlines, hl, hr, h⟩ := assemble_eq_ok_iff.1 himage
    obtain ⟨before, after, d, hshape, lines', name, loc, hlines', hname, hlabel⟩ := image_shape himage
    obtain rfl : lines = lines' := Except.ok.inj (hlines.symm.trans hlines')
    rw [hlines] at htokenize
    dsimp only at htokenize
    rw [hl, Bool.and_eq_true_iff, Bool.and_eq_true_iff] at htokenize
    obtain ⟨hglobal, hslot, hresolve⟩ := htokenize
    obtain ⟨slot, hprogram, args, i, hargs, hi, rfl⟩ := resolves_of_getElem? hr h (eq_of_beq hslot)
    rw [show resolveArgs l.symbols (.ofFlow .sequential 0) storeStatement.args = .ok args from hargs] at hresolve
    obtain rfl := eq_of_beq hresolve
    cases hi
    obtain ⟨rfl, rfl⟩ := Prod.mk.inj (Option.some.inj (hname.symm.trans (eq_of_beq hglobal)))
    have hentry : image.entryIndex = 0 := by
      rw [hshape.entryIndex_eq]
      exact Option.some.inj (hlabel.symm.trans (eq_of_beq hmain))
    have hpc : (start image none #[] : Machine (Array Byte)).pc = 0 := hentry
    obtain ⟨o, hstore⟩ : ∃ o, image.program[0]? = some (.inst ⟨.STS, [.imm 0x900, .reg 0], o, 3⟩) := ⟨_, hprogram⟩
    refine ⟨image, o, himage, ?_, rfl, ?_, ?_, rfl⟩
    · rw [hpc]
      exact hstore
    · rw [hpc]
      exact (eq_of_beq hbreakpoint).trans_ne nofun
    · rw [hpc]
      decide
  · cases hassemble

theorem errored_storeBehind : ∃ image, assemble storeBehind none = .ok image ∧
    (start image none #[] : Machine (Array Byte)).step.condition = .errored (.addressOutOfRange 0x900) := by
  obtain ⟨image, o, himage, habout⟩ := aboutTo_storeBehind
  have hrun : ∀ m : Machine (Array Byte),
      execute ⟨.STS, [.imm 0x900, .reg 0], o, 3⟩ m = .error (.addressOutOfRange 0x900) m := fun _ => rfl
  have hstep := (step_eq_perform habout).trans (perform_error (hrun _))
  exact ⟨image, himage, hstep ▸ rfl⟩

theorem step_atomic_storeBehind : ∃ (image : Image) (m : Machine (Array Byte)), assemble storeBehind none = .ok image ∧
    m.ReachableFrom image ∧ m.step.condition = .errored (.addressOutOfRange 0x900) ∧ m.Untouched m.step := by
  obtain ⟨image, himage, hf⟩ := errored_storeBehind
  exact ⟨image, _, himage, .start none #[], hf, step_atomic himage (.start none #[]) hf⟩

/-! ## Which faults there are -/

/-- A running machine in flash fails before it executes an instruction, at its limit or between the words of an
instruction, or with a fault that the instruction can raise. -/
theorem Steps.fault_cases [Console γ] (h : m.Steps m') (hw : image.WellFormed) (himage : m.image = image)
    (hrunning : m.condition = .running) (hf : m'.condition = .errored f) :
    (∃ n, m.limitReached? = some n ∧ f = .stepLimit n ∧ m' = m.fail f) ∨
      (m.image.program[m.pc]? = some .continuation ∧ f = .continuationExecuted m.pc ∧ m' = m.cleared.fail f) ∨
      ∃ i, m.AboutTo i ∧ i.CanRaise f := by
  cases h with
  | stopped hstopped => exact absurd hrunning hstopped
  | breakpoint | flashEnd => cases hf
  | limit hn =>
    cases hf
    exact .inl ⟨_, hn, rfl, rfl⟩
  | outside hlt hslot =>
    rw [himage] at hslot
    have hsize := Array.getElem?_eq_none_iff.1 hslot
    rw [hw.programSize] at hsize
    exact absurd (hlt.trans (Nat.lt_succ_self _)) (Nat.not_lt.2 hsize)
  | continuation hslot =>
    cases hf
    exact .inr (.inl ⟨hslot, rfl, rfl⟩)
  | execution habout =>
    obtain ⟨c, n, hframe, -, heq⟩ | ⟨g, n, hg, -, heq⟩ := perform_cases hw himage habout
    · exact absurd (heq ▸ hf) (proceed_condition habout hframe c)
    · rw [heq] at hf
      cases hf
      exact .inr (.inr ⟨_, habout, hg⟩)

theorem ReachableFrom.not_malformed [Console γ] {source : String} {wanted : Option Nat}
    (h : assemble source wanted = .ok image) (hm : m.ReachableFrom image) (k : Mnemonic) :
    m.condition ≠ .errored (.malformedOperands k) := by
  induction hm with
  | start _ _ | reset _ _ => exact nofun
  | write _ _ _ ih => exact ih
  | @step m hm ih =>
    intro hf
    by_cases hrunning : m.condition = .running
    · obtain ⟨n, -, hlimit, -⟩ | ⟨-, hcontinuation, -⟩ | ⟨i, -, hraise⟩ :=
        (steps_step m).fault_cases (wellFormed_of_assemble h) (hm.sound h).1 hrunning hf
      · cases hlimit
      · cases hcontinuation
      · exact hraise
    · exact ih (step_of_not_running hrunning ▸ hf)

/-- What the assembler checks is what instructions rely on. Every instruction of an assembled program has an operation
with operands in range: registers up to 31, pairs from registers up to 30, bits up to 7. On every machine that the
program gets into the instruction does what its operation does, no sum of addresses leaves its type, and the next slot is
in flash or right behind it. No machine is ever in error for its operands; one that fails does so before an instruction,
at its limit or between two words, or with a fault that its instruction can raise. -/
theorem step_checked [Console γ] {source : String} {wanted : Option Nat} (h : assemble source wanted = .ok image) :
    (∀ i, .inst i ∈ image.program → ∃ op, i.operation? = some op ∧
      ∀ m : Machine γ, m.ReachableFrom image → m.AboutTo i →
        op.run (m.ready i) = some (execute i (m.ready i)) ∧ m.pc + i.width ≤ flashSize) ∧
    ∀ m : Machine γ, m.ReachableFrom image →
      (∀ k, m.step.condition ≠ .errored (.malformedOperands k)) ∧
      ∀ f, m.condition = .running → m.step.condition = .errored f →
        (∃ n, m.limitReached? = some n ∧ f = .stepLimit n ∧ m.step = m.fail f) ∨
        (m.image.program[m.pc]? = some .continuation ∧ f = .continuationExecuted m.pc ∧ m.step = m.cleared.fail f) ∨
        ∃ i, m.AboutTo i ∧ i.CanRaise f := by
  have hw := wellFormed_of_assemble h
  refine ⟨fun i hi => ?_, fun m hm => ⟨hm.step.not_malformed h, fun f hrunning hf => ?_⟩⟩
  · obtain ⟨op, hop⟩ := exists_does (hw.admitted_of_mem hi)
    refine ⟨op, hop.decoded, fun m hm habout => ?_⟩
    have himage := (hm.sound h).1
    exact ⟨hop.run _ (inside_of_lt hw himage habout.inFlash), hw.behind_le (himage ▸ habout.fetched)⟩
  · exact (steps_step m).fault_cases hw (hm.sound h).1 hrunning hf

theorem step_checked_storeBehind : ∃ (image : Image) (m : Machine (Array Byte)) (i : Instruction) (op : Operation),
    assemble storeBehind none = .ok image ∧ m.ReachableFrom image ∧ m.AboutTo i ∧ i.operation? = some op ∧
      op.run (m.ready i) = some (execute i (m.ready i)) ∧ m.step.condition = .errored (.addressOutOfRange 0x900) ∧
      i.CanRaise (.addressOutOfRange 0x900) := by
  obtain ⟨image, himage, hf⟩ := errored_storeBehind
  have hm : (start image none #[] : Machine (Array Byte)).ReachableFrom image := .start none #[]
  obtain ⟨hoperations, hfaults⟩ := step_checked (γ := Array Byte) himage
  obtain ⟨n, -, hlimit, -⟩ | ⟨-, hcontinuation, -⟩ | ⟨i, habout, hraise⟩ := (hfaults _ hm).2 _ rfl hf
  · cases hlimit
  · cases hcontinuation
  · obtain ⟨op, hop, hrun⟩ := hoperations i (Array.mem_of_getElem? habout.fetched)
    exact ⟨image, _, i, op, himage, hm, habout, hop, (hrun _ hm habout).1, hf, hraise⟩

end Avr.Machine

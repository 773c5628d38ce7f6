import Avr.Proofs.Layout.WellFormed
import Avr.Proofs.Machine.Decode

/-!
# Machines that an image gets into

* `Machine.ReachableFrom` : the machines that steps, resets and writes from outside make of an image;
* `Machine.Steps` : all that a step can do; `steps_step` : a step does it;
* `Image.WellFormed.behind_le`, `Image.WellFormed.admitted_of_mem` : the instructions of a well-formed image;
* `perform_cases` : an instruction goes to a place in flash or behind it, or it fails with a fault that it can raise
  and has changed nothing but counters;
* `ReachableFrom.sound` : the image stays and the program counter remains in flash or right behind it.
-/

namespace Avr

variable {γ : Type}

namespace Machine

/-- What steps, resets and writes to data memory from outside make of a machine that starts with an image. -/
inductive ReachableFrom [Console γ] (image : Image) : Machine γ → Prop
  | start (limit : StepLimit) (console : γ) : ReachableFrom image (start image limit console)
  | step {m : Machine γ} (h : ReachableFrom image m) : ReachableFrom image m.step
  | reset {m : Machine γ} (h : ReachableFrom image m) : ReachableFrom image m.reset
  | write {m : Machine γ} (h : ReachableFrom image m) {a : Nat} (ha : a < ramSize) (v : Byte) :
    ReachableFrom image (m.write a v)

/-! ## Steps -/

def cleared (m : Machine γ) : Machine γ := { m with memory := m.memory.clearChanges }

def ready (m : Machine γ) (i : Instruction) : Machine γ := m.cleared.account i

/-- All that a step can do: nothing once the machine has stopped, stop before an instruction, or execute one. -/
inductive Steps [Console γ] (m : Machine γ) : Machine γ → Prop
  | stopped (h : m.condition ≠ .running) : Steps m m
  | breakpoint : Steps m m.finish
  | flashEnd : Steps m { m with pc := Avr.flashEnd }.finish
  | limit {n : Nat} (h : m.limitReached? = some n) : Steps m (m.fail (.stepLimit n))
  | outside (h : m.pc < Avr.flashEnd) (hslot : m.image.program[m.pc]? = none) :
    Steps m (m.cleared.fail (.jumpOutOfRange m.pc))
  | continuation (hslot : m.image.program[m.pc]? = some .continuation) :
    Steps m (m.cleared.fail (.continuationExecuted m.pc))
  | execution {i : Instruction} (h : m.AboutTo i) : Steps m (m.cleared.perform i)

theorem steps_dispatch [Console γ] {m : Machine γ} (hrunning : m.condition = .running)
    (hbreakpoint : m.image.breakpoint ≠ some m.pc) (hflash : m.pc < flashEnd) (hlimit : m.limitReached? = none) :
    m.Steps m.cleared.dispatch := by
  cases hslot : m.image.program[m.pc]? with
  | none =>
    have hdispatch : m.cleared.dispatch = m.cleared.fail (.jumpOutOfRange m.pc) := by
      unfold dispatch
      rw [show m.cleared.image.program[m.cleared.pc]? = none from hslot]
      rfl
    exact hdispatch ▸ .outside hflash hslot
  | some slot =>
    cases slot with
    | continuation =>
      have hdispatch : m.cleared.dispatch = m.cleared.fail (.continuationExecuted m.pc) := by
        unfold dispatch
        rw [show m.cleared.image.program[m.cleared.pc]? = some .continuation from hslot]
        rfl
      exact hdispatch ▸ .continuation hslot
    | inst i =>
      have hdispatch : m.cleared.dispatch = m.cleared.perform i := dispatch_eq_perform hslot
      exact hdispatch ▸ .execution ⟨hslot, hrunning, hbreakpoint, hflash, hlimit⟩

theorem step_of_running [Console γ] {m : Machine γ} (h : m.condition = .running) : m.step =
    if m.image.breakpoint = some m.pc then m.finish
    else if flashEnd ≤ m.pc then { m with pc := flashEnd }.finish
    else match m.limitReached? with
      | some n => m.fail (.stepLimit n)
      | none => m.cleared.dispatch := by
  obtain ⟨image, limit, memory, pc, condition, stats, counts, console⟩ := m
  obtain rfl : condition = .running := h
  rfl

theorem step_of_not_running [Console γ] {m : Machine γ} (h : m.condition ≠ .running) : m.step = m := by
  unfold step
  split
  · next hrunning => exact absurd hrunning h
  · rfl

theorem steps_step [Console γ] (m : Machine γ) : m.Steps m.step := by
  by_cases hrunning : m.condition = .running
  · rw [step_of_running hrunning]
    split
    · exact .breakpoint
    · next hbreakpoint =>
      split
      · exact .flashEnd
      · next hflash =>
        cases hlimit : m.limitReached? with
        | some n => exact .limit hlimit
        | none => exact steps_dispatch hrunning hbreakpoint (Nat.not_le.1 hflash) hlimit
  · rw [step_of_not_running hrunning]
    exact .stopped hrunning

end Machine

/-! ## Instructions of an image -/

namespace Image.WellFormed

variable {image : Image}

theorem behind_le (h : image.WellFormed) {j : Nat} {i : Instruction} (hi : image.program[j]? = some (.inst i)) :
    j + i.width ≤ flashSize := by
  rcases width_cases i with hwidth | hwidth
  · have hj := (Array.getElem?_eq_some_iff.1 hi).1
    rw [h.programSize] at hj
    omega
  · have hsecond := (h.continuation (j + 1)).2 ⟨j, i, rfl, hi, hwidth⟩
    have hj := (Array.getElem?_eq_some_iff.1 hsecond).1
    rw [h.programSize] at hj
    omega

theorem admitted_of_mem (h : image.WellFormed) {i : Instruction} (hi : .inst i ∈ image.program) :
    Admitted i.mnemonic i.operands := by
  obtain ⟨j, hj, hget⟩ := Array.mem_iff_getElem.1 hi
  have hslot : image.program[j]? = some (.inst i) := Array.getElem?_eq_some_iff.2 ⟨hj, hget⟩
  rcases Nat.lt_or_ge j image.codeLength with hcode | hfill
  · exact (h.admitted j i hcode hslot).1
  · rw [h.filler j hfill (h.programSize ▸ hj)] at hslot
    cases hslot
    exact .nil

end Image.WellFormed

namespace Machine

variable {image : Image} {m m' : Machine γ} {i : Instruction}

/-- Before the last slot the next instruction is in flash. -/
theorem inside_of_lt (hw : image.WellFormed) (himage : m.image = image) (hpc : m.pc < flashEnd) : m.Inside := by
  have hsize : flashSize = flashEnd + 1 := rfl
  unfold Inside nextWidth
  rw [himage]
  split
  · next i hi => exact hw.behind_le hi
  · omega

theorem perform_ok [Console γ] {c : Control} (h : execute i (m.ready i) = .ok c m') :
    m.cleared.perform i = m'.proceed i c := by
  unfold perform EStateM.run
  rw [show execute i (m.cleared.account i) = .ok c m' from h]

theorem perform_error [Console γ] {f : Fault} (h : execute i (m.ready i) = .error f m') :
    m.cleared.perform i = m'.fail f := by
  unfold perform EStateM.run
  rw [show execute i (m.cleared.account i) = .error f m' from h]

/-- An instruction of a well-formed image goes to a place in flash or behind it, or it fails with a fault that it can
raise and has changed nothing but counters. -/
theorem perform_cases [Console γ] (hw : image.WellFormed) (himage : m.image = image) (h : m.AboutTo i) :
    (∃ c m', (m.ready i).Frame m' ∧ (m.ready i).Goes c ∧ m.cleared.perform i = m'.proceed i c) ∨
      ∃ f m', i.CanRaise f ∧ (m' = m.ready i ∨ m' = (m.ready i).countTaken 1) ∧ m.cleared.perform i = m'.fail f := by
  have hmem : .inst i ∈ image.program := himage ▸ Array.mem_of_getElem? h.fetched
  obtain ⟨op, hop⟩ := exists_does (hw.admitted_of_mem hmem)
  have hrun := hop.run (m.ready i) (inside_of_lt hw himage h.inFlash)
  cases hresult : execute i (m.ready i) with
  | ok c m' =>
    rw [hresult] at hrun
    obtain ⟨hframe, hgoes⟩ := Operation.run_ok hrun
    exact .inl ⟨c, m', hframe, hgoes, perform_ok hresult⟩
  | error f m' =>
    rw [hresult] at hrun
    obtain ⟨hraises, hm'⟩ := Operation.run_error hrun
    exact .inr ⟨f, m', hop.raises f hraises, hm', perform_error hresult⟩

/-! ## What every machine keeps -/

theorem proceed_sound (hw : image.WellFormed) (himage : m.image = image) (h : m.AboutTo i) {c : Control}
    (hframe : (m.ready i).Frame m') (hgoes : (m.ready i).Goes c) :
    (m'.proceed i c).image = image ∧ (m'.proceed i c).pc ≤ flashSize := by
  have himage' : m'.image = image := hframe.image.trans himage
  have hpc : m'.pc = m.pc := hframe.pc
  cases c with
  | next =>
    refine ⟨himage', ?_⟩
    change m'.pc + i.width ≤ flashSize
    rw [hpc]
    exact hw.behind_le (himage ▸ h.fetched)
  | jump target =>
    refine ⟨himage', ?_⟩
    rcases hgoes with hlt | rfl
    · exact hlt.le
    · exact inside_of_lt hw himage h.inFlash
  | stop => exact ⟨himage', hpc.trans_le (Nat.le_succ_of_le h.inFlash.le)⟩

theorem Steps.sound [Console γ] (h : m.Steps m') (hw : image.WellFormed) (himage : m.image = image)
    (hpc : m.pc ≤ flashSize) : m'.image = image ∧ m'.pc ≤ flashSize := by
  cases h with
  | stopped _ | breakpoint | limit _ | outside _ _ | continuation _ => exact ⟨himage, hpc⟩
  | flashEnd => exact ⟨himage, Nat.le_succ _⟩
  | execution habout =>
    obtain ⟨c, n, hframe, hgoes, heq⟩ | ⟨f, n, -, rfl | rfl, heq⟩ := perform_cases hw himage habout
    · exact heq ▸ proceed_sound hw himage habout hframe hgoes
    · exact heq ▸ ⟨himage, hpc⟩
    · exact heq ▸ ⟨himage, hpc⟩

theorem start_sound {source : String} {wanted : Option Nat} (h : assemble source wanted = .ok image)
    (limit : StepLimit) (console : γ) :
    (start image limit console).image = image ∧ (start image limit console).pc ≤ flashSize := by
  obtain ⟨before, after, d, hshape, -⟩ := image_shape h
  have hpc : (start image limit console).pc = image.entryIndex := pc_start image limit console
  rw [hpc, hshape.entryIndex_eq]
  exact ⟨rfl, hshape.entry_le.trans hshape.fits⟩

/-- The image stays, and the program counter remains in flash or right behind it. -/
theorem ReachableFrom.sound [Console γ] {source : String} {wanted : Option Nat}
    (h : assemble source wanted = .ok image) (hm : m.ReachableFrom image) : m.image = image ∧ m.pc ≤ flashSize := by
  induction hm with
  | start limit console => exact start_sound h limit console
  | step _ ih => exact (steps_step _).sound (wellFormed_of_assemble h) ih.1 ih.2
  | reset _ ih =>
    rw [reset_eq_start, ih.1]
    exact start_sound h _ _
  | write _ _ _ ih => exact ih

end Machine

end Avr

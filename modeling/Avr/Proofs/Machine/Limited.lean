import Avr.Proofs.Machine.Bounded
import Avr.Proofs.Machine.Faults
import Avr.Proofs.Machine.Returns

/-!
# Runs with a limit, and where machines are

* `runFor_steps` : a run is a number of steps, at all of which but the last the machine goes on;
* `WithinLimit` : no machine has executed more than its limit; `ReachableFrom.withinLimit` : by induction on the steps;
* `EndsWithin` : how a run with a limit ends; `ReachableFrom.endsWithin` : all of them end so;
* `execute_calls`, `step_calls` : the return address that a call leaves on the stack;
* `InBounds` : where a machine is, what it fetches and executes, and what its calls push; `ReachableFrom.inBounds` :
  all of them are so;
* `run_limited` : both, for every machine that an assembled program gets into.
-/

namespace Avr

/-- A call that leaves a return address, not one of a function of the simulator. -/
def Instruction.Calls (i : Instruction) : Prop := i.mnemonic ∈ [.CALL, .RCALL, .ICALL] ∧ i.callsFunc = false

namespace Machine

variable {γ : Type} {image : Image} {m m' : Machine γ}

/-! ## Runs as steps -/

section

variable [Console γ]

/-- A run is a number of steps. At all of them but the last the machine goes on, and at that one it stops unless the
run has been cut short. -/
theorem runFor_steps (n : Nat) (m : Machine γ) : ∃ k, 1 ≤ k ∧ k ≤ n + 1 ∧ runFor (n + 1) m = steps k m ∧
    (∀ j, 0 < j → j < k → (steps j m).condition = .running) ∧ ((steps k m).condition = .running → k = n + 1) := by
  induction n generalizing m with
  | zero => exact ⟨1, le_rfl, le_rfl, by simp [runFor, steps], fun j hpos hlt => by omega, fun _ => rfl⟩
  | succ n ih =>
    rw [runFor]
    by_cases hrunning : m.step.condition = .running
    · obtain ⟨k, hpos, hle, heq, hgoes, hlast⟩ := ih m.step
      refine ⟨k + 1, by omega, by omega, ?_, fun j hj hjk => ?_, fun h => by rw [hlast h]⟩
      · simp only [show m.step.isRunning = true from beq_iff_eq.2 hrunning, if_true]
        exact heq
      · obtain _ | j := j
        · exact absurd hj (lt_irrefl 0)
        · obtain rfl | hj := Nat.eq_zero_or_pos j
          · exact hrunning
          · exact hgoes j hj (by omega)
    · refine ⟨1, le_rfl, by omega, ?_, fun j hpos hlt => by omega, fun h => absurd h hrunning⟩
      simp only [show ¬ m.step.isRunning = true from fun h => hrunning (beq_iff_eq.1 h)]
      rfl

theorem ReachableFrom.steps (hm : m.ReachableFrom image) (k : Nat) : (steps k m).ReachableFrom image := by
  induction k generalizing m with
  | zero => exact hm
  | succ k ih => exact ih hm.step

end

/-! ## Machines within their limit -/

/-- A machine with a limit has executed no more instructions than that, and as many if it has stopped the machine. -/
structure WithinLimit (l : StepLimit) (m : Machine γ) : Prop where
  limit : m.limit = l
  steps : ∀ n, l = some n → m.stats.steps ≤ n
  hit : ∀ n, m.condition = .errored (.stepLimit n) → l = some n ∧ m.stats.steps = n

namespace WithinLimit

variable {l : StepLimit}

theorem start (image : Image) (l : StepLimit) (console : γ) : (start image l console).WithinLimit l :=
  ⟨rfl, fun _ _ => Nat.zero_le _, nofun⟩

theorem congr (h : m.WithinLimit l) (hlimit : m'.limit = m.limit) (hsteps : m'.stats.steps = m.stats.steps)
    (hcondition : ∀ n, m'.condition ≠ .errored (.stepLimit n)) : m'.WithinLimit l :=
  ⟨hlimit.trans h.limit, fun n hn => hsteps ▸ h.steps n hn, fun n hn => absurd hn (hcondition n)⟩

theorem fail_limit (h : m.WithinLimit l) {n : Nat} (hn : m.limitReached? = some n) :
    (m.fail (.stepLimit n)).WithinLimit l := by
  obtain ⟨hlimit, hle⟩ := Option.filter_eq_some_iff.1 hn
  rw [decide_eq_true_eq] at hle
  rw [h.limit] at hlimit
  refine ⟨h.limit, h.steps, fun k hk => ?_⟩
  cases hk
  exact ⟨hlimit, le_antisymm (h.steps n hlimit) hle⟩

theorem executed (h : m.WithinLimit l) (hreached : m.limitReached? = none) (hlimit : m'.limit = m.limit)
    (hsteps : m'.stats.steps = m.stats.steps + 1) (hcondition : ∀ n, m'.condition ≠ .errored (.stepLimit n)) :
    m'.WithinLimit l := by
  refine ⟨hlimit.trans h.limit, fun n hn => ?_, fun n hn => absurd hn (hcondition n)⟩
  have hbelow := Option.filter_eq_none_iff.1 hreached n (h.limit.trans hn)
  rw [decide_eq_true_eq] at hbelow
  omega

end WithinLimit

variable [Console γ] {l : StepLimit}

theorem Steps.withinLimit (hstep : m.Steps m') (hw : image.WellFormed) (himage : m.image = image)
    (h : m.WithinLimit l) : m'.WithinLimit l := by
  cases hstep with
  | stopped _ => exact h
  | breakpoint | flashEnd | outside _ _ | continuation _ => exact h.congr rfl rfl nofun
  | limit hn => exact h.fail_limit hn
  | execution habout =>
    obtain ⟨c, n, hframe, -, heq⟩ | ⟨f, n, hf, hn, heq⟩ := perform_cases hw himage habout
    · rw [heq]
      apply h.executed habout.limit
      · cases c <;> exact hframe.limit
      · cases c <;> exact hframe.steps
      · exact fun k => proceed_condition habout hframe c
    · have hcondition : ∀ k, (n.fail f).condition ≠ .errored (.stepLimit k) := by
        intro k hk
        cases hk
        exact hf
      rw [heq]
      obtain rfl | rfl := hn <;> exact h.executed habout.limit rfl rfl hcondition

variable {source : String} {wanted : Option Nat}

theorem ReachableFrom.withinLimit (h : assemble source wanted = .ok image) (hm : m.ReachableFrom image) :
    m.WithinLimit m.limit := by
  induction hm with
  | start limit console => exact .start image limit console
  | step hm ih =>
    have hstep := (steps_step _).withinLimit (wellFormed_of_assemble h) (hm.sound h).1 ih
    rw [hstep.limit]
    exact hstep
  | reset _ _ =>
    rw [reset_eq_start]
    exact .start _ _ _
  | write _ _ _ ih => exact ⟨rfl, ih.steps, ih.hit⟩

theorem ReachableFrom.steps_withinLimit (h : assemble source wanted = .ok image) (hm : m.ReachableFrom image)
    (k : Nat) : (Machine.steps k m).WithinLimit m.limit := by
  induction k with
  | zero => exact hm.withinLimit h
  | succ k ih =>
    rw [steps_succ]
    exact (steps_step _).withinLimit (wellFormed_of_assemble h) ((hm.steps k).sound h).1 ih

/-! ## How a run ends -/

/-- The run of a machine returns after at most `n + 1` steps, finished or in error, with at most `n` instructions
executed, and with exactly so many if the limit has stopped it, which is `n` then. -/
structure EndsWithin (n : Nat) (m : Machine γ) : Prop where
  calls : ∃ k, 1 ≤ k ∧ k ≤ n + 1 ∧ m.run = steps k m ∧ ∀ j, 0 < j → j < k → (steps j m).condition = .running
  ended : m.run.condition = .finished ∨ ∃ f, m.run.condition = .errored f
  executed : m.run.stats.steps ≤ n
  hit : ∀ l, m.run.condition = .errored (.stepLimit l) → l = n ∧ m.run.stats.steps = n

/-- Behind the steps that its limit leaves it and one more, a machine has stopped. -/
theorem ReachableFrom.endsWithin (h : assemble source wanted = .ok image) (hm : m.ReachableFrom image) {n : Nat}
    (hn : m.limit = some n) : m.EndsWithin n := by
  obtain ⟨k, hpos, hle, hrun, hgoes, hlast⟩ := runFor_steps (n - m.stats.steps) m
  have hfuel : m.fuel = n - m.stats.steps + 1 := by rw [fuel, hn]
  rw [← hfuel] at hrun
  change m.run = Machine.steps k m at hrun
  have hstopped : m.run.condition ≠ .running := by
    rw [hrun]
    intro hrunning
    obtain ⟨-, -, hbelow⟩ := steps_goes hrunning
    have hk := hlast hrunning
    have hleft := hbelow n hn hpos
    omega
  obtain ⟨-, hsteps, hhit⟩ := hm.steps_withinLimit h k
  rw [← hrun] at hsteps hhit
  refine ⟨⟨k, hpos, by omega, hrun, hgoes⟩, ?_, hsteps n hn, fun l hl => ?_⟩
  · cases hcondition : m.run.condition with
    | running => exact absurd hcondition hstopped
    | finished => exact .inl rfl
    | errored f => exact .inr ⟨f, rfl⟩
  · obtain ⟨hl, hexact⟩ := hhit l hl
    obtain rfl : n = l := Option.some.inj (hn.symm.trans hl)
    exact ⟨rfl, hexact⟩

/-! ## Return addresses -/

/-- An instruction that calls and succeeds has left the slot behind it on the stack. -/
theorem execute_calls {i : Instruction} (hi : i.Calls) {c : Control} (h : execute i m = .ok c m') :
    (ramStart < m.sp.toNat ∧ m.sp.toNat ≤ ramEnd) ∧ m' = m.withReturn (m.pc + i.width) ∧ ∃ target, c = .jump target := by
  obtain ⟨mn, ops, o, l⟩ := i
  obtain ⟨hmn, hcalls⟩ := hi
  have hcall : ∃ target, (call target (⟨mn, ops, o, l⟩ : Instruction).width : Exec γ Control) m = .ok c m' := by
    simp only [List.mem_cons, List.not_mem_nil, or_false] at hmn
    unfold execute at h
    obtain rfl | rfl | rfl := hmn
    · dsimp only at h
      rw [if_neg (by rw [hcalls]; decide)] at h
      obtain ⟨k, h⟩ := (passive_imm _ 0).bind_ok h
      exact (passive_absolute k).bind_ok h
    · dsimp only at h
      rw [if_neg (by rw [hcalls]; decide)] at h
      obtain ⟨k, h⟩ := (passive_imm _ 0).bind_ok h
      exact (passive_relative k).bind_ok h
    · dsimp only at h
      rw [bind_run_ok (get_run m)] at h
      exact (passive_absolute _).bind_ok h
  obtain ⟨target, hcall⟩ := hcall
  obtain ⟨hroom, hc, hm'⟩ := call_ok hcall
  exact ⟨hroom, hm', target, hc⟩

/-- Where a machine is and what it does there. The program counter is at most the size of flash. What it fetches is a
slot of the program, an instruction that is executed is before the last one, and the slot behind it is a number of
sixteen bits: a call that succeeds leaves this number on the stack. -/
structure InBounds (m : Machine γ) : Prop where
  pc : m.pc ≤ flashSize
  fetch : m.pc < flashEnd → ∃ slot, m.image.program[m.pc]? = some slot
  executes : m.step.stats.steps ≠ m.stats.steps →
    m.pc < flashEnd ∧ ∃ i, m.image.program[m.pc]? = some (.inst i) ∧ m.step = m.cleared.perform i
  behind : ∀ i, m.AboutTo i → m.pc + i.width < 2 ^ 16
  returns : ∀ i, m.AboutTo i → i.Calls → m.step.condition = .running →
    m.step.returnTarget = m.pc + i.width ∧ m.step.sp.toNat + 2 = m.sp.toNat

/-- Only instructions are counted as executed. -/
theorem Steps.executed (h : m.Steps m') (hcount : m'.stats.steps ≠ m.stats.steps) :
    ∃ i, m.AboutTo i ∧ m' = m.cleared.perform i := by
  cases h with
  | stopped _ | breakpoint | flashEnd | limit _ | outside _ _ | continuation _ => exact absurd rfl hcount
  | @execution i habout => exact ⟨i, habout, rfl⟩

theorem step_calls {i : Instruction} (habout : m.AboutTo i) (hi : i.Calls) (hrunning : m.step.condition = .running)
    (hbehind : m.pc + i.width < 2 ^ 16) :
    m.step.returnTarget = m.pc + i.width ∧ m.step.sp.toNat + 2 = m.sp.toNat := by
  have hstep := step_eq_perform habout
  cases hrun : execute i (m.ready i) with
  | ok c n =>
    obtain ⟨hroom, rfl, target, rfl⟩ := execute_calls hi hrun
    rw [hstep.trans (perform_ok hrun)]
    exact returnTarget_withReturn hroom hbehind
  | error f n =>
    rw [hstep.trans (perform_error hrun)] at hrunning
    cases hrunning

theorem ReachableFrom.inBounds (h : assemble source wanted = .ok image) (hm : m.ReachableFrom image) :
    m.InBounds := by
  have hw := wellFormed_of_assemble h
  obtain ⟨himage, hpc⟩ := hm.sound h
  have hbehind (i : Instruction) (habout : m.AboutTo i) : m.pc + i.width < 2 ^ 16 := by
    have hle := hw.behind_le (himage ▸ habout.fetched)
    exact hle.trans_lt (by decide)
  refine ⟨hpc, fun hlt => ?_, fun hcount => ?_, hbehind, fun i habout hi hrunning => ?_⟩
  · have hsize : m.pc < m.image.program.size := by
      rw [himage, hw.programSize]
      exact hlt.trans (Nat.lt_succ_self _)
    exact ⟨_, Array.getElem?_eq_getElem hsize⟩
  · obtain ⟨i, habout, hstep⟩ := (steps_step m).executed hcount
    exact ⟨habout.inFlash, i, habout.fetched, hstep⟩
  · exact step_calls habout hi hrunning (hbehind i habout)

/-! ## Together -/

/-- Every machine that an assembled program gets into is within its bounds: program counter, fetches, executed
instructions and return addresses. Every run that it makes with a limit ends, and within that limit. -/
theorem run_limited (h : assemble source wanted = .ok image) (hm : m.ReachableFrom image) :
    m.InBounds ∧ ∀ n, m.limit = some n → m.EndsWithin n :=
  ⟨hm.inBounds h, fun _ hn => hm.endsWithin h hn⟩

def callSource : String := ".section .text
.global main
main: RCALL main
.end"

def callInstruction : Instruction := ⟨.RCALL, [.imm (-1)], "1101111111111111", 3⟩

def callImage (symbols : Symbols) : Image :=
  let bytes : Array Byte := Array.replicate ramStart 0
  ⟨filled [Slot.inst callInstruction].toArray, Vector.ofFn fun i => bytes[i.val]?.getD 0, none, symbols, 1, bytes.size⟩

theorem assemble_call : ∃ symbols, assemble callSource none = .ok (callImage symbols) := by
  apply assemble_of_assemblesTo
  decide +kernel

theorem pc_start_call (symbols : Symbols) (l : StepLimit) :
    (start (callImage symbols) l (#[] : Array Byte)).pc = 0 := by
  simp [pc_start, callImage, Memory.readPair, Memory.read_ofFn, entryLowCell, ramSize, ramStart, wordOf]

theorem aboutTo_call (symbols : Symbols) :
    (start (callImage symbols) (some 1) (#[] : Array Byte)).AboutTo callInstruction := by
  refine ⟨?_, rfl, nofun, ?_, rfl⟩
  · rw [pc_start_call]
    show (filled [Slot.inst callInstruction].toArray)[0]? = _
    rw [filled, Array.getElem?_append_left (by decide)]
    rfl
  · rw [pc_start_call]
    decide

theorem run_limited_call : ∃ symbols, let m := start (callImage symbols) (some 1) (#[] : Array Byte)
    assemble callSource none = .ok (callImage symbols) ∧ m.ReachableFrom (callImage symbols) ∧
      m.AboutTo callInstruction ∧ callInstruction.Calls ∧ m.step.condition = .running ∧ m.step.returnTarget = 1 ∧
      m.run = m.step.step ∧ m.run.condition = .errored (.stepLimit 1) ∧ m.run.stats.steps = 1 := by
  obtain ⟨symbols, hassemble⟩ := assemble_call
  refine ⟨symbols, ?_⟩
  intro m
  have hm : m.ReachableFrom (callImage symbols) := .start (some 1) #[]
  have habout : m.AboutTo callInstruction := aboutTo_call symbols
  have hcalls : callInstruction.Calls := ⟨by decide, rfl⟩
  obtain ⟨hbounds, hends⟩ := run_limited hassemble hm
  obtain ⟨⟨k, hpos, hle, hrun, -⟩, hended, -, hhit⟩ := hends 1 rfl
  have hpc : m.pc = 0 := pc_start_call symbols (some 1)
  have hsp := (holds_start (callImage symbols) (some 1) (#[] : Array Byte)).depth
  rw [List.length_nil, Nat.add_zero] at hsp
  have hroom : m.Transfers callInstruction := by
    show ramStart < m.sp.toNat ∧ m.sp.toNat ≤ ramEnd
    rw [hsp]
    decide
  have hrelative : Relative callInstruction.mnemonic callInstruction.operands (-1) := .rcall (by decide)
  have htarget : m.pc + 1 + (-1 : Int) = (0 : Nat) := by
    rw [hpc]
    rfl
  obtain ⟨hback, hrunning⟩ := step_relative habout hrelative hroom htarget (by decide)
  obtain ⟨hreturn, -⟩ := hbounds.returns _ habout hcalls hrunning
  rw [hpc] at hreturn
  obtain ⟨-, -, hlimit, hsteps⟩ := step_running hrunning
  have hreached : m.step.limitReached? = some 1 := by
    rw [limitReached?, hlimit, hsteps]
    rfl
  have hbreakpoint : (callImage symbols).breakpoint ≠ some 0 := (Option.some_ne_none 0).symm
  have hstop : m.step.step = m.step.fail (.stepLimit 1) := by
    rw [step_of_running hrunning, (hm.step.sound hassemble).1, hback, if_neg hbreakpoint, if_neg (by decide), hreached]
  have hsecond : m.run = m.step.step := by
    obtain rfl | rfl : k = 1 ∨ k = 2 := by omega
    · have hcondition : m.run.condition = .running := (congrArg condition hrun).trans hrunning
      rw [hcondition] at hended
      obtain hfinished | ⟨f, hf⟩ := hended
      · cases hfinished
      · cases hf
    · exact hrun
  have hcondition : m.run.condition = .errored (.stepLimit 1) := by
    rw [hsecond, hstop]
    rfl
  exact ⟨hassemble, hm, habout, hcalls, hrunning, hreturn, hsecond, hcondition, (hhit 1 hcondition).2⟩

end Machine

end Avr

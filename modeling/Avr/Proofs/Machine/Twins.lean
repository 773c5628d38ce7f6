import Avr.Proofs.Machine.Parallel

/-!
# Machines that differ in their settings and consoles

* `Setting` : what a machine never changes; `Pairing` : two settings for one program, and which consoles correspond;
* `Pairing.Twins` : machines in the two settings, with corresponding consoles, that are otherwise the same;
* `Twins.dispatch` : they execute their next instruction alike;
* `Twins.step` : they remain twins by a step at which both stop or both go on; `Twins.run` : with one breakpoint and one
  limit, by a whole run.

Nothing here asks where an image comes from.
-/

namespace Avr

variable {γ δ : Type}

/-! ## Settings -/

/-- What a machine never changes: its image and its limit. -/
structure Setting where
  image : Image
  limit : StepLimit

/-- Two settings for one program, and which consoles correspond in them. -/
structure Pairing (γ δ : Type) [Console γ] [Console δ] where
  first : Setting
  second : Setting
  program : second.image.program = first.image.program
  Shows : γ → δ → Prop
  emit : ∀ {c : γ} {d : δ} (text : List Byte), Shows c d → Shows (Console.emit c text) (Console.emit d text)

namespace Pairing

variable [Console γ] [Console δ] {P : Pairing γ δ} {m : Machine γ} {n : Machine δ}

/-- Machines in the two settings with corresponding consoles and all else the same. -/
inductive Twins (P : Pairing γ δ) : Machine γ → Machine δ → Prop
  | intro (memory : Memory) (pc : Nat) (condition : Condition) (stats : Stats) (counts : Vector Nat Mnemonic.count)
    {c : γ} {d : δ} (h : P.Shows c d) :
    Twins P ⟨P.first.image, P.first.limit, memory, pc, condition, stats, counts, c⟩
      ⟨P.second.image, P.second.limit, memory, pc, condition, stats, counts, d⟩

namespace Twins

theorem image_left (h : P.Twins m n) : m.image = P.first.image := by cases h; rfl

theorem limit_left (h : P.Twins m n) : m.limit = P.first.limit := by cases h; rfl

theorem image_right (h : P.Twins m n) : n.image = P.second.image := by cases h; rfl

theorem limit_right (h : P.Twins m n) : n.limit = P.second.limit := by cases h; rfl

theorem shows (h : P.Twins m n) : P.Shows m.console n.console := by cases h; assumption

theorem program (h : P.Twins m n) : n.image.program = m.image.program := by
  rw [h.image_left, h.image_right, P.program]

theorem memory (h : P.Twins m n) : n.memory = m.memory := by cases h; rfl

theorem pc (h : P.Twins m n) : n.pc = m.pc := by cases h; rfl

theorem condition (h : P.Twins m n) : n.condition = m.condition := by cases h; rfl

theorem stats (h : P.Twins m n) : n.stats = m.stats := by cases h; rfl

theorem isRunning (h : P.Twins m n) : n.isRunning = m.isRunning := by cases h; rfl

/-- In one setting twins differ in nothing but their consoles. -/
theorem eq_of_setting (h : P.Twins m n) (hs : P.second = P.first) : n = { m with console := n.console } := by
  cases h
  rw [hs]

/-! ## Changes that twins make together -/

theorem withMemory (h : P.Twins m n) (memory : Memory) :
    P.Twins { m with memory := memory } { n with memory := memory } := by
  cases h with
  | intro _ _ _ _ _ h => exact .intro _ _ _ _ _ h

theorem withPc (h : P.Twins m n) (pc : Nat) : P.Twins { m with pc := pc } { n with pc := pc } := by
  cases h with
  | intro _ _ _ _ _ h => exact .intro _ _ _ _ _ h

theorem withCondition (h : P.Twins m n) (condition : Condition) :
    P.Twins { m with condition := condition } { n with condition := condition } := by
  cases h with
  | intro _ _ _ _ _ h => exact .intro _ _ _ _ _ h

theorem emit (h : P.Twins m n) (text : List Byte) : P.Twins { m with console := Console.emit m.console text }
    { n with console := Console.emit n.console text } := by
  cases h with
  | intro _ _ _ _ _ h => exact .intro _ _ _ _ _ (P.emit text h)

theorem countTaken (h : P.Twins m n) (cycles : Nat) : P.Twins (m.countTaken cycles) (n.countTaken cycles) := by
  cases h with
  | intro _ _ _ _ _ h => exact .intro _ _ _ _ _ h

theorem account (h : P.Twins m n) (i : Instruction) : P.Twins (m.account i) (n.account i) := by
  cases h with
  | intro _ _ _ _ _ h => exact .intro _ _ _ _ _ h

theorem cleared (h : P.Twins m n) : P.Twins m.cleared n.cleared := by
  rw [Machine.cleared, Machine.cleared, h.memory]
  exact h.withMemory _

theorem finish (h : P.Twins m n) : P.Twins m.finish n.finish := h.withCondition .finished

theorem fail (h : P.Twins m n) (f : Fault) : P.Twins (m.fail f) (n.fail f) := h.withCondition (.errored f)

theorem proceed (h : P.Twins m n) (i : Instruction) (c : Control) : P.Twins (m.proceed i c) (n.proceed i c) := by
  cases c with
  | next =>
    rw [Machine.proceed, Machine.proceed, h.pc]
    exact h.withPc _
  | jump target => exact h.withPc target
  | stop => exact h.finish

end Twins

/-! ## Instructions -/

def parallel (P : Pairing γ δ) : Parallel γ δ where
  Rel := P.Twins
  program := Twins.program
  memory := Twins.memory
  pc := Twins.pc
  withMemory := Twins.withMemory
  emit := Twins.emit

namespace Twins

/-- Twins are at the same instruction, and it does the same to both. -/
theorem dispatch (h : P.Twins m n) : P.Twins m.dispatch n.dispatch := by
  unfold Machine.dispatch
  rw [h.program, h.pc]
  split
  · exact h.fail _
  · exact h.fail _
  · next i _ =>
    have hrun := P.parallel.alike_execute i (fun _ => countTaken) _ _ (h.account i)
    unfold EStateM.run
    generalize Machine.execute i (m.account i) = r at hrun ⊢
    generalize Machine.execute i (n.account i) = r' at hrun ⊢
    cases hrun with
    | ok c h' => exact proceed h' i c
    | error f h' => exact fail h' f

/-! ## Steps -/

theorem step (h : P.Twins m n) (hstop : n.image.breakpoint = some n.pc ↔ m.image.breakpoint = some m.pc)
    (hlimit : m.image.breakpoint ≠ some m.pc → m.pc < flashEnd → n.limitReached? = m.limitReached?) :
    P.Twins m.step n.step := by
  by_cases hrunning : m.condition = .running
  · rw [Machine.step_of_running hrunning, Machine.step_of_running (h.condition.trans hrunning)]
    rw [if_congr hstop rfl rfl, h.pc]
    split
    · exact h.finish
    · next hpast =>
      split
      · exact (h.withPc flashEnd).finish
      · next hflash =>
        rw [hlimit hpast (Nat.not_le.1 hflash)]
        split
        · exact h.fail _
        · exact h.cleared.dispatch
  · rw [Machine.step_of_not_running hrunning, Machine.step_of_not_running (h.condition ▸ hrunning)]
    exact h

section

variable (hstop : P.second.image.breakpoint = P.first.image.breakpoint) (hlimit : P.second.limit = P.first.limit)
include hstop hlimit

/-- With one breakpoint and one limit twins remain twins by every step. -/
theorem step_same (h : P.Twins m n) : P.Twins m.step n.step := by
  refine h.step ?_ fun _ _ => ?_
  · rw [h.image_left, h.image_right, h.pc, hstop]
  · rw [Machine.limitReached?, Machine.limitReached?, h.limit_left, h.limit_right, h.stats, hlimit]

theorem runFor (h : P.Twins m n) (k : Nat) : P.Twins (m.runFor k) (n.runFor k) := by
  induction k generalizing m n with
  | zero => exact h
  | succ k ih =>
    have hstep := h.step_same hstop hlimit
    simp only [Machine.runFor, hstep.isRunning]
    split
    · exact ih hstep
    · exact hstep

theorem run (h : P.Twins m n) : P.Twins m.run n.run := by
  have hfuel : n.fuel = m.fuel := by
    rw [Machine.fuel, Machine.fuel, h.limit_left, h.limit_right, h.stats, hlimit]
  rw [Machine.run, Machine.run, hfuel]
  exact h.runFor hstop hlimit _

end

end Twins

end Pairing

end Avr

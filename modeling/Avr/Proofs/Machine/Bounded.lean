import Avr.Proofs.Machine.Twins

/-!
# Breakpoints and limits

* `Machine.bounded` : a machine with another breakpoint and another limit;
* `step_running` : a step after which the machine goes on has executed one instruction below the limit;
  `steps_goes`, `steps_running` : as many instructions as calls while the machine goes on;
* `bounded_step` : a step of a machine that may stop at its breakpoint or limit, beside one that goes on;
* `steps_raised` : a higher limit changes nothing before the lower one is hit;
* `steps_bounded` : breakpoints and limits only cut a run short.
-/

namespace Avr.Machine

variable {γ : Type} [Console γ] {m n : Machine γ}

def bounded (m : Machine γ) (b : Option Nat) (l : StepLimit) : Machine γ :=
  { m with image := { m.image with breakpoint := b }, limit := l }

/-! ## Runs -/

theorem steps_succ (k : Nat) (m : Machine γ) : steps (k + 1) m = (steps k m).step := by
  induction k generalizing m with
  | zero => rfl
  | succ k ih => exact ih m.step

/-- A step after which the machine goes on has executed one instruction, and the limit was not reached before it. -/
theorem step_running (h : m.step.condition = .running) :
    m.condition = .running ∧ m.limitReached? = none ∧ m.step.limit = m.limit ∧
      m.step.stats.steps = m.stats.steps + 1 := by
  have hsteps := steps_step m
  generalize m.step = m' at h hsteps
  cases hsteps with
  | stopped hstopped => exact absurd h hstopped
  | breakpoint | flashEnd | limit _ | outside _ _ | continuation _ => cases h
  | @execution i habout =>
    refine ⟨habout.running, habout.limit, ?_⟩
    cases hrun : execute i (m.ready i) with
    | ok c m' =>
      have hframe := execute_ok_frame hrun
      rw [perform_ok hrun] at h ⊢
      cases c with
      | next | jump _ => exact ⟨hframe.limit, hframe.steps⟩
      | stop => cases h
    | error f m' =>
      rw [perform_error hrun] at h
      cases h

/-- As long as a machine goes on, it has executed as many more instructions as it was asked to, and not more than its
limit lets it. -/
theorem steps_goes {k : Nat} (h : (steps k m).condition = .running) :
    (steps k m).limit = m.limit ∧ (steps k m).stats.steps = m.stats.steps + k ∧
      ∀ limit, m.limit = some limit → 0 < k → m.stats.steps + k ≤ limit := by
  induction k with
  | zero => exact ⟨rfl, rfl, fun _ _ hk => absurd hk (lt_irrefl 0)⟩
  | succ k ih =>
    rw [steps_succ] at h ⊢
    obtain ⟨hrunning, hreached, hlimit, hcount⟩ := step_running h
    obtain ⟨hl, hk, -⟩ := ih hrunning
    refine ⟨hlimit.trans hl, by rw [hcount, hk, Nat.add_assoc], fun limit heq _ => ?_⟩
    rw [limitReached?, hl, hk, Option.filter_eq_none_iff] at hreached
    have hbelow := hreached limit heq
    rw [decide_eq_true_eq] at hbelow
    omega

theorem steps_running {image : Image} {l : StepLimit} {console : γ} {k : Nat}
    (h : (steps k (start image l console)).condition = .running) :
    (steps k (start image l console)).limit = l ∧ (steps k (start image l console)).stats.steps = k ∧
      ∀ limit, l = some limit → k ≤ limit := by
  obtain ⟨hlimit, hsteps, hle⟩ := steps_goes h
  refine ⟨hlimit, hsteps.trans (Nat.zero_add k), fun limit heq => ?_⟩
  cases k with
  | zero => exact Nat.zero_le _
  | succ k => exact (Nat.zero_add (k + 1)).symm.trans_le (hle limit heq (Nat.succ_pos k))

/-! ## Machines with the same program -/

/-- An image with two breakpoints and two limits, and one console. -/
def rebounded (γ : Type) [Console γ] (image : Image) (b b' : Option Nat) (l l' : StepLimit) : Pairing γ γ where
  first := ⟨{ image with breakpoint := b }, l⟩
  second := ⟨{ image with breakpoint := b' }, l'⟩
  program := rfl
  Shows := Eq
  emit text h := by rw [h]

variable {image : Image} {b b' : Option Nat} {l l' : StepLimit}

theorem twins_start (console : γ) : (rebounded γ image b b' l l').Twins
    (start { image with breakpoint := b } l console) (start { image with breakpoint := b' } l' console) :=
  .intro _ _ _ _ _ rfl

theorem eq_bounded (h : (rebounded γ image b b' l l').Twins m n) : n = m.bounded b' l' := by
  cases h with
  | intro _ _ _ _ _ h => cases h; rfl

/-- A step of a running machine beside one without breakpoint and limit: it stops at its breakpoint, it stops at its
limit, or both do the same. -/
theorem bounded_step (h : (rebounded γ image none b none l).Twins m n) (hrunning : n.condition = .running) :
    b = some m.pc ∧ n.step = n.finish ∨
      (b ≠ some m.pc ∧ m.pc < flashEnd ∧ ∃ limit, n.limitReached? = some limit ∧ n.step = n.fail (.stepLimit limit)) ∨
      (rebounded γ image none b none l).Twins m.step n.step := by
  have hbreakpoint : n.image.breakpoint = b := by rw [h.image_right]; rfl
  have hfree : m.image.breakpoint = none := by rw [h.image_left]; rfl
  have hunlimited : m.limitReached? = none := by rw [limitReached?, h.limit_left]; rfl
  by_cases hb : b = some m.pc
  · refine .inl ⟨hb, ?_⟩
    rw [step_of_running hrunning, hbreakpoint, h.pc, if_pos hb]
  have hstop : n.image.breakpoint = some n.pc ↔ m.image.breakpoint = some m.pc := by
    rw [hbreakpoint, h.pc, hfree]
    exact ⟨fun hpc => absurd hpc hb, fun hpc => absurd hpc.symm (Option.some_ne_none _)⟩
  by_cases hflash : m.pc < flashEnd
  · cases hlimit : n.limitReached? with
    | some limit =>
      refine .inr (.inl ⟨hb, hflash, limit, rfl, ?_⟩)
      rw [step_of_running hrunning, hbreakpoint, h.pc, if_neg hb, if_neg (Nat.not_le.2 hflash), hlimit]
    | none => exact .inr (.inr (h.step hstop fun _ _ => hlimit.trans hunlimited.symm))
  · exact .inr (.inr (h.step hstop fun _ hlt => absurd hlt hflash))

theorem bounded_steps (console : γ) {k : Nat}
    (h : (steps k (start { image with breakpoint := b } l console)).condition = .running) :
    (rebounded γ image none b none l).Twins (steps k (start { image with breakpoint := none } none console))
      (steps k (start { image with breakpoint := b } l console)) := by
  induction k with
  | zero => exact twins_start console
  | succ k ih =>
    rw [steps_succ] at h
    obtain ⟨hrunning, -⟩ := step_running h
    rw [steps_succ, steps_succ]
    obtain ⟨-, hstop⟩ | ⟨-, -, limit, -, hfail⟩ | htwins := bounded_step (ih hrunning) hrunning
    · rw [hstop] at h
      cases h
    · rw [hfail] at h
      cases h
    · exact htwins

/-! ## Higher limits -/

/-- A step beside one with a higher limit: both do the same, unless the lower limit is hit. -/
theorem raised_step {limit : Nat} (h : (rebounded γ image b b (some limit) l).Twins m n)
    (hl : ∀ limit', l = some limit' → limit ≤ limit') (hmiss : m.step.condition ≠ .errored (.stepLimit limit)) :
    (rebounded γ image b b (some limit) l).Twins m.step n.step := by
  have hstop : n.image.breakpoint = some n.pc ↔ m.image.breakpoint = some m.pc := by
    rw [h.image_left, h.image_right, h.pc]
    rfl
  by_cases hrunning : m.condition = .running
  · refine h.step hstop fun hpast hflash => ?_
    rw [step_of_running hrunning, if_neg hpast, if_neg (Nat.not_le.2 hflash)] at hmiss
    by_cases hreached : limit ≤ m.stats.steps
    · have hlimit : m.limitReached? = some limit := by
        rw [limitReached?, h.limit_left]
        exact Option.filter_some_pos (decide_eq_true hreached)
      rw [hlimit] at hmiss
      exact absurd rfl hmiss
    · have hlow : m.limitReached? = none := by
        rw [limitReached?, h.limit_left]
        exact Option.filter_some_neg (by simpa using hreached)
      rw [hlow, limitReached?, h.limit_right, h.stats, Option.filter_eq_none_iff]
      intro limit' heq
      have hle := hl limit' heq
      simp only [decide_eq_true_eq]
      omega
  · rw [step_of_not_running hrunning, step_of_not_running (h.condition ▸ hrunning)]
    exact h

theorem steps_raised (console : γ) {limit k : Nat} (hl : ∀ limit', l = some limit' → limit ≤ limit')
    (hmiss : (steps k (start { image with breakpoint := b } (some limit) console)).condition ≠
      .errored (.stepLimit limit)) :
    (rebounded γ image b b (some limit) l).Twins
      (steps k (start { image with breakpoint := b } (some limit) console))
      (steps k (start { image with breakpoint := b } l console)) := by
  induction k with
  | zero => exact twins_start console
  | succ k ih =>
    rw [steps_succ] at hmiss ⊢
    rw [steps_succ]
    have hbefore : (steps k (start { image with breakpoint := b } (some limit) console)).condition ≠
        .errored (.stepLimit limit) := by
      intro hhit
      rw [step_of_not_running (by rw [hhit]; exact nofun)] at hmiss
      exact hmiss hhit
    exact raised_step (ih hbefore) hl hmiss

/-- Breakpoints and limits only cut a run short. As long as a machine with them goes on, it is what the machine without
them is. When it stops, it is at its breakpoint, or it has executed as many instructions as its limit allows, and is as
the other one was before that step; or it is what the other one is after that step. A higher limit changes nothing in a
run that does not hit the lower one. -/
theorem steps_bounded (image : Image) (b : Option Nat) (l : StepLimit) (console : γ) :
    let free k := steps k (start { image with breakpoint := none } none console)
    let bound l k := steps k (start { image with breakpoint := b } l console)
    (∀ k, (bound l k).condition = .running → bound l k = (free k).bounded b l) ∧
    (∀ k, (bound l k).condition = .running → (bound l (k + 1)).condition ≠ .running →
      b = some (free k).pc ∧ bound l (k + 1) = ((free k).bounded b l).finish ∨
      (b ≠ some (free k).pc ∧ (free k).pc < flashEnd ∧ ∃ limit, l = some limit ∧ (free k).stats.steps = limit ∧
        bound l (k + 1) = ((free k).bounded b l).fail (.stepLimit limit)) ∨
      bound l (k + 1) = (free (k + 1)).bounded b l) ∧
    ∀ limit, l = some limit → ∀ l', (∀ limit', l' = some limit' → limit ≤ limit') →
      ∀ k, (bound l k).condition ≠ .errored (.stepLimit limit) → bound l' k = { bound l k with limit := l' } := by
  intro free bound
  refine ⟨fun k hrunning => eq_bounded (bounded_steps console hrunning), fun k hrunning hstopped => ?_, ?_⟩
  · have htwins := bounded_steps console hrunning
    obtain ⟨hlimit, hcount, hbelow⟩ := steps_running hrunning
    have hfree := steps_succ k (start { image with breakpoint := none } none console)
    have hbound := steps_succ k (start { image with breakpoint := b } l console)
    obtain ⟨hb, hstep⟩ | ⟨hb, hflash, limit, hreached, hstep⟩ | hstep := bounded_step htwins hrunning
    · refine .inl ⟨hb, ?_⟩
      rw [← eq_bounded htwins, ← hstep]
      exact hbound
    · obtain ⟨heq, hle⟩ := Option.filter_eq_some_iff.1 hreached
      rw [hlimit] at heq
      simp only [decide_eq_true_eq] at hle
      have hk := hbelow limit heq
      refine .inr (.inl ⟨hb, hflash, limit, heq, ?_, ?_⟩)
      · rw [← htwins.stats]
        omega
      · rw [← eq_bounded htwins, ← hstep]
        exact hbound
    · refine .inr (.inr ?_)
      rw [← eq_bounded (hbound ▸ hfree ▸ hstep)]
  · rintro limit rfl l' hl k hmiss
    have htwins := steps_raised console hl hmiss
    have heq : bound l' k = (bound (some limit) k).bounded b l' := eq_bounded htwins
    have himage : (bound (some limit) k).image = { image with breakpoint := b } := htwins.image_left
    rw [heq, bounded, himage]
    exact congrArg ({ bound (some limit) k with limit := l', image := · }) himage.symm

/-- An instruction that jumps to itself, with a breakpoint at `b`. -/
def circle (b : Option Nat) : Image :=
  ⟨#[.inst ⟨.RJMP, [.imm (-1)], "", 1⟩], Vector.replicate ramSize 0, b, .empty, 0, 0⟩

/-- It is cut short by a limit of two, by a breakpoint at itself before its first step, and not by a limit of nine. -/
theorem steps_bounded_circle :
    let free k := steps k (start (circle none) none (#[] : Array Byte))
    let bound l k := steps k (start (circle none) l (#[] : Array Byte))
    (bound (some 2) 2).condition = .running ∧
      bound (some 2) 3 = ((free 2).bounded none (some 2)).fail (.stepLimit 2) ∧
      steps 1 (start (circle (some 0)) none (#[] : Array Byte)) = ((free 0).bounded (some 0) none).finish ∧
      bound (some 9) 2 = { bound (some 2) 2 with limit := some 9 } := by
  intro free bound
  have hrunning : (bound (some 2) 2).condition = .running := by decide +kernel
  obtain ⟨-, hcut, hraised⟩ := steps_bounded (circle none) none (some 2) (#[] : Array Byte)
  obtain ⟨-, hbreak, -⟩ := steps_bounded (circle none) (some 0) none (#[] : Array Byte)
  have hmiss : (bound (some 2) 2).condition ≠ .errored (.stepLimit 2) := by
    rw [hrunning]
    exact nofun
  refine ⟨hrunning, ?_, ?_, hraised 2 rfl (some 9) (by decide) 2 hmiss⟩
  · obtain ⟨hb, -⟩ | ⟨-, -, limit, hlimit, -, heq⟩ | heq := hcut 2 hrunning (by decide +kernel)
    · cases hb
    · cases hlimit
      exact heq
    · exact absurd (congrArg Machine.condition heq) (by decide +kernel)
  · obtain ⟨-, heq⟩ | ⟨hb, -⟩ | heq := hbreak 0 rfl (by decide +kernel)
    · exact heq
    · exact absurd (by decide +kernel) hb
    · exact absurd (congrArg Machine.condition heq) (by decide +kernel)

end Avr.Machine

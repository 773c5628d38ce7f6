import Mathlib.Algebra.BigOperators.Group.Finset.Basic
import Mathlib.Algebra.BigOperators.Ring.Finset
import Avr.Proofs.Machine.Hosted

/-!
# The counters of a run

* `MayTake` : parts of instructions that leave the machine as it is or count one branch as taken;
* `execute_counters` : what an instruction does to the counters besides being counted, whether it fails or not;
* `weighted` : the executions so far, each with the weight of its mnemonic; `weighted_account` : one more of them;
* `Consistent` : the counters fit together; `Steps.consistent` : a step keeps that;
* `follow_counters` : they fit together in every machine that a host gets from a start.

Nothing here asks where an image comes from.
-/

namespace Avr

/-! ## Mnemonics -/

namespace Mnemonic

theorem index_injective : Function.Injective index := by
  intro k k' h
  have hget : all[k.index]? = all[k'.index]? := by rw [h]
  rw [getElem?_all_index, getElem?_all_index] at hget
  exact Option.some.inj hget

theorem nodup_all : all.Nodup := by
  have hindices : all.map index = List.range count := by decide +kernel
  exact List.Nodup.of_map index (hindices ▸ List.nodup_range)

instance : Fintype Mnemonic where
  elems := ⟨all, nodup_all⟩
  complete := mem_all

end Mnemonic

namespace Machine

variable {γ : Type} {m m' : Machine γ} {i : Instruction}

/-! ## Parts of instructions -/

section Parts

variable {α β : Type}

/-- The part leaves the machine as it is or counts one branch as taken, in one cycle or two. -/
def MayTake (x : Exec γ α) : Prop :=
  ∀ m, reached (x m) = m ∨ ∃ cycles, 1 ≤ cycles ∧ cycles ≤ 2 ∧ reached (x m) = m.countTaken cycles

theorem MayTake.bind {x : Exec γ α} {f : α → Exec γ β} (hx : Passive x) (hf : ∀ a, MayTake (f a)) :
    MayTake (x >>= f) := by
  intro m
  obtain ⟨e, hrun⟩ | ⟨a, hrun⟩ := hx.bind_run f m
  · rw [hrun]
    exact .inl rfl
  · rw [hrun]
    exact hf a m

theorem MayTake.get {f : Machine γ → Exec γ β} (hf : ∀ m, MayTake (f m)) : MayTake (get >>= f) :=
  .bind (fun _ => rfl) hf

theorem mayTake_branch (taken : Bool) (k : Int) : MayTake (branch taken k : Exec γ Control) := by
  intro m
  cases taken with
  | false => exact .inl rfl
  | true =>
    refine .inr ⟨1, le_rfl, by omega, ?_⟩
    rw [branch_run]
    split <;> rfl

theorem nextWidth_cases (m : Machine γ) : m.nextWidth = 1 ∨ m.nextWidth = 2 := by
  unfold nextWidth
  split
  · exact width_cases _
  · exact .inl rfl

theorem mayTake_skip (taken : Bool) : MayTake (skip taken : Exec γ Control) := by
  intro m
  cases taken with
  | false => exact .inl rfl
  | true =>
    have hwidth := m.nextWidth_cases
    exact .inr ⟨m.nextWidth, by omega, by omega, rfl⟩

theorem mayTake_branchOn (b : StatusBit) (v : Bool) (k : Int) : MayTake (branchOn b v k : Exec γ Control) :=
  .get fun _ => mayTake_branch _ k

end Parts

/-! ## Instructions -/

/-- A machine beside itself, with the counters of `m₀`. -/
def counting [Console γ] (m₀ : Machine γ) : Parallel γ γ where
  Rel m n := n = m ∧ m.stats = m₀.stats ∧ m.counts = m₀.counts
  program h := by rw [h.1]
  memory h := by rw [h.1]
  pc h := by rw [h.1]
  withMemory h _ := by
    obtain ⟨rfl, h⟩ := h
    exact ⟨rfl, h⟩
  emit h _ := by
    obtain ⟨rfl, h⟩ := h
    exact ⟨rfl, h⟩

/-- An instruction that does not count as a branch leaves the counters alone. -/
theorem execute_unconditional [Console γ] (h : i.mnemonic.isConditional = false) (m : Machine γ) :
    (reached (execute i m)).stats = m.stats ∧ (reached (execute i m)).counts = m.counts := by
  have hkept := (counting m).alike_execute i (fun h' => absurd h' (by rw [h]; decide)) m m ⟨rfl, rfl, rfl⟩
  generalize execute i m = r at hkept
  cases hkept with
  | ok c h' => exact h'.2
  | error f h' => exact h'.2

/-- An instruction that counts as a branch counts at most one as taken, whether it fails or not. -/
theorem execute_conditional [Console γ] (h : i.mnemonic.isConditional = true) :
    MayTake (execute i : Exec γ Control) := by
  obtain ⟨mn, ops, o, l⟩ := i
  unfold execute
  cases mn with
  | BRBC | BRBS => exact .bind (passive_bit _ 0) fun _ => .bind (passive_imm _ 1) fun _ => mayTake_branchOn _ _ _
  | BRCC | BRSH | BRCS | BRLO | BRNE | BREQ | BRPL | BRMI | BRVC | BRVS | BRGE | BRLT | BRHC | BRHS | BRTC | BRTS
  | BRID | BRIE => exact .bind (passive_imm _ 0) fun _ => mayTake_branchOn _ _ _
  | CPSE =>
    exact .bind (passive_reg _ 0) fun _ => .bind (passive_reg _ 1) fun _ => .get fun _ => mayTake_skip _
  | SBRC | SBRS =>
    exact .bind (passive_reg _ 0) fun _ => .bind (passive_bit _ 1) fun _ => .get fun _ => mayTake_skip _
  | SBIC | SBIS =>
    exact .bind (passive_imm _ 0) fun _ => .bind (passive_load _) fun _ => .bind (passive_bit _ 1) fun _ =>
      mayTake_skip _
  | _ => cases h

/-- The counters of `m'` are those of `m` with branches counted as taken and cycles for them. -/
structure Takes (m m' : Machine γ) (taken cycles : Nat) : Prop where
  counts : m'.counts = m.counts
  stats : m'.stats = { m.stats with
    branchesTaken := m.stats.branchesTaken + taken
    cycles := m.stats.cycles + cycles }

theorem execute_counters [Console γ] (i : Instruction) (m : Machine γ) :
    ∃ taken cycles, m.Takes (reached (execute i m)) taken cycles ∧
      (taken ≤ if i.mnemonic.isConditional then 1 else 0) ∧ taken ≤ cycles ∧ cycles ≤ 2 * taken := by
  cases h : i.mnemonic.isConditional with
  | false =>
    obtain ⟨hstats, hcounts⟩ := execute_unconditional h m
    exact ⟨0, 0, ⟨hcounts, hstats⟩, le_rfl, le_rfl, le_rfl⟩
  | true =>
    obtain hkept | ⟨cycles, hlow, hhigh, htaken⟩ := execute_conditional h m
    · exact ⟨0, 0, by rw [hkept]; exact ⟨rfl, rfl⟩, Nat.zero_le _, le_rfl, le_rfl⟩
    · exact ⟨1, cycles, by rw [htaken]; exact ⟨rfl, rfl⟩, le_rfl, hlow, hhigh⟩

/-- What comes after an instruction leaves the counters alone. -/
theorem perform_counters [Console γ] (m : Machine γ) (i : Instruction) :
    (m.perform i).stats = (reached (execute i (m.account i))).stats ∧
      (m.perform i).counts = (reached (execute i (m.account i))).counts := by
  unfold perform EStateM.run
  cases execute i (m.account i) with
  | ok c m' => cases c <;> exact ⟨rfl, rfl⟩
  | error f m' => exact ⟨rfl, rfl⟩

/-! ## Executions with weights -/

/-- The sum over all mnemonics of how often each has been executed, times its weight. -/
def weighted (m : Machine γ) (weight : Mnemonic → Nat) : Nat := ∑ k, m.count k * weight k

theorem count_account (m : Machine γ) (i : Instruction) (k : Mnemonic) :
    (m.account i).count k = m.count k + if k = i.mnemonic then 1 else 0 := by
  have hget : (m.account i).count k = if i.mnemonic.index = k.index then m.count i.mnemonic + 1 else m.count k :=
    Vector.getElem_set i.mnemonic.index_lt k.index_lt
  rw [hget]
  by_cases h : k = i.mnemonic
  · rw [if_pos (by rw [h]), if_pos h, h]
  · rw [if_neg fun hindex => h (Mnemonic.index_injective hindex.symm), if_neg h, Nat.add_zero]

theorem weighted_account (m : Machine γ) (i : Instruction) (weight : Mnemonic → Nat) :
    (m.account i).weighted weight = m.weighted weight + weight i.mnemonic := by
  unfold weighted
  simp only [count_account, Nat.add_mul, Finset.sum_add_distrib, ite_mul, one_mul, zero_mul, Finset.sum_ite_eq',
    Finset.mem_univ, if_true]

theorem weighted_start (image : Image) (limit : StepLimit) (console : γ) (weight : Mnemonic → Nat) :
    (start image limit console).weighted weight = 0 := by
  refine Finset.sum_eq_zero fun k _ => ?_
  have hzero : (start image limit console).count k = 0 := Vector.getElem_replicate _
  rw [hzero, Nat.zero_mul]

theorem weighted_congr (h : m'.counts = m.counts) (weight : Mnemonic → Nat) : m'.weighted weight = m.weighted weight := by
  unfold weighted count
  rw [h]

/-! ## Consistent counters -/

/-- The counters of a machine fit together. -/
structure Consistent (m : Machine γ) : Prop where
  steps : m.weighted (fun _ => 1) = m.stats.steps
  seen : m.weighted (fun k => if k.isConditional then 1 else 0) = m.stats.branchesSeen
  taken : m.stats.branchesTaken ≤ m.stats.branchesSeen
  atLeast : m.weighted (fun k => k.entry.cycles) + m.stats.branchesTaken ≤ m.stats.cycles
  atMost : m.stats.cycles ≤ m.weighted (fun k => k.entry.cycles) + 2 * m.stats.branchesTaken

namespace Consistent

theorem start (image : Image) (limit : StepLimit) (console : γ) : (start image limit console).Consistent := by
  have hweighted := weighted_start image limit console
  refine ⟨hweighted _, hweighted _, Nat.zero_le _, ?_, Nat.zero_le _⟩
  rw [hweighted]
  exact Nat.zero_le _

theorem congr (h : m.Consistent) (hstats : m'.stats = m.stats) (hcounts : m'.counts = m.counts) : m'.Consistent := by
  have hweighted := weighted_congr hcounts
  constructor
  all_goals rw [hstats]
  · exact (hweighted _).trans h.steps
  · exact (hweighted _).trans h.seen
  · exact h.taken
  · rw [hweighted]
    exact h.atLeast
  · rw [hweighted]
    exact h.atMost

/-- Counting an instruction, and with it what it adds for a branch taken, keeps the counters consistent. -/
theorem account (h : m.Consistent) {taken cycles : Nat} (hm' : (m.account i).Takes m' taken cycles)
    (htaken : taken ≤ if i.mnemonic.isConditional then 1 else 0) (hlow : taken ≤ cycles) (hhigh : cycles ≤ 2 * taken) :
    m'.Consistent := by
  have hweighted (weight : Mnemonic → Nat) : m'.weighted weight = m.weighted weight + weight i.mnemonic :=
    (weighted_congr hm'.counts weight).trans (weighted_account m i weight)
  obtain ⟨hsteps, hseen, htakenSeen, hatLeast, hatMost⟩ := h
  constructor
  all_goals simp only [hweighted, hm'.stats, Machine.account]
  all_goals omega

theorem perform [Console γ] (h : m.Consistent) (i : Instruction) : (m.perform i).Consistent := by
  obtain ⟨taken, cycles, htakes, htaken, hlow, hhigh⟩ := execute_counters i (m.account i)
  obtain ⟨hstats, hcounts⟩ := perform_counters m i
  exact (h.account htakes htaken hlow hhigh).congr hstats hcounts

end Consistent

/-! ## Runs -/

variable [Console γ]

theorem Steps.consistent (hstep : m.Steps m') (h : m.Consistent) : m'.Consistent := by
  cases hstep with
  | stopped _ | breakpoint | flashEnd | limit _ | outside _ _ | continuation _ => exact h.congr rfl rfl
  | @execution i _ => exact (h.congr rfl rfl : m.cleared.Consistent).perform i

theorem Consistent.runFor (h : m.Consistent) (n : Nat) : (m.runFor n).Consistent := by
  induction n generalizing m with
  | zero => exact h
  | succ n ih =>
    have hstep := (steps_step m).consistent h
    simp only [Machine.runFor]
    split
    · exact ih hstep
    · exact hstep

theorem Consistent.act (h : m.Consistent) (a : HostAction) : (m.act a).Consistent := by
  cases a with
  | step => exact (steps_step m).consistent h
  | run => exact h.runFor m.fuel
  | reset =>
    rw [Machine.act, reset_eq_start]
    exact .start _ _ _
  | edit change => exact h.congr rfl rfl

theorem Consistent.follow (h : m.Consistent) (actions : List HostAction) : (m.follow actions).Consistent := by
  induction actions generalizing m with
  | nil => exact h
  | cons a actions ih => exact ih (h.act a)

/-- Whatever a host does with a machine from its start, and whatever image that has: the executions of all mnemonics
add up to the steps and those of the conditional ones to the branches seen, no more branches are taken than seen, and
what the cycles exceed the base cycles of the executions by is one or two for each branch taken. -/
theorem follow_counters (image : Image) (limit : StepLimit) (console : γ) (actions : List HostAction) :
    let m := (start image limit console).follow actions
    ∑ k, m.count k = m.stats.steps ∧
      ∑ k with k.isConditional = true, m.count k = m.stats.branchesSeen ∧
      m.stats.branchesTaken ≤ m.stats.branchesSeen ∧
      (∑ k, m.count k * k.entry.cycles) + m.stats.branchesTaken ≤ m.stats.cycles ∧
      m.stats.cycles ≤ (∑ k, m.count k * k.entry.cycles) + 2 * m.stats.branchesTaken := by
  intro m
  obtain ⟨hsteps, hseen, htaken, hatLeast, hatMost⟩ := (Consistent.start image limit console).follow actions
  refine ⟨?_, ?_, htaken, hatLeast, hatMost⟩
  · simpa only [weighted, mul_one] using hsteps
  · simpa only [weighted, mul_ite, mul_one, mul_zero, Finset.sum_filter] using hseen

end Machine

end Avr

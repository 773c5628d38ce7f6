import Avr.Machine.Step

/-!
# The parts of instructions as functions of the machine

* `bind_run_ok`, `bind_run_error` : one part of an instruction after another;
* `load_run`, `store_run` : one cell of data memory;
* `absolute_run`, `relative_run`, `branch_run` : targets in program memory;
* `Passive` : parts that leave the machine as it is;
* `push_run`, `pop_run`, `popReturn_run` : the stack; `print_run` : a text whose address is on it;
  `afterPrint_induction` : what it leaves alone;
* `withReturn` : a return address on the stack; `call_run` : a call with room for it; `call_ok` : no other succeeds.
-/

namespace Avr.Machine

variable {γ : Type}

/-! ## Parts in a row -/

theorem bind_run_ok {α β : Type} {x : Exec γ α} {f : α → Exec γ β} {m m' : Machine γ} {a : α} (h : x m = .ok a m') :
    (x >>= f) m = f a m' := by
  simp only [bind, EStateM.bind, h]

theorem bind_run_error {α β : Type} {x : Exec γ α} {f : α → Exec γ β} {m m' : Machine γ} {e : Fault}
    (h : x m = .error e m') : (x >>= f) m = .error e m' := by
  simp only [bind, EStateM.bind, h]

theorem get_run (m : Machine γ) : (get : Exec γ (Machine γ)) m = .ok m m := rfl

theorem throw_run {α : Type} (e : Fault) (m : Machine γ) : (throw e : Exec γ α) m = .error e m := rfl

/-! ## Data memory -/

theorem inMemory_of_le {a : Nat} (h : a ≤ ramEnd) : inMemory a = true := by
  rw [inMemory, decide_eq_true_iff, ramSize_eq]
  omega

theorem inMemory_of_lt {a : Nat} (h : ramEnd < a) : ¬ inMemory a = true := by
  rw [inMemory, decide_eq_true_iff, ramSize_eq]
  omega

theorem load_run (a : Nat) (m : Machine γ) : (load a : Exec γ Byte) m =
    if inMemory a then .ok (m.memory.read a) m else .error (.addressOutOfRange a) m := by
  unfold load
  split <;> rfl

theorem store_run (a : Nat) (v : Byte) (m : Machine γ) : (store a v : Exec γ Unit) m =
    if inMemory a then .ok () (m.write a v) else .error (.addressOutOfRange a) m := by
  unfold store
  split <;> rfl

theorem load_ok {a : Nat} (h : inMemory a = true) (m : Machine γ) :
    (load a : Exec γ Byte) m = .ok (m.memory.read a) m := by
  rw [load_run, if_pos h]

theorem load_error {a : Nat} (h : ¬ inMemory a = true) (m : Machine γ) :
    (load a : Exec γ Byte) m = .error (.addressOutOfRange a) m := by
  rw [load_run, if_neg h]

theorem store_ok {a : Nat} (h : inMemory a = true) (v : Byte) (m : Machine γ) :
    (store a v : Exec γ Unit) m = .ok () (m.write a v) := by
  rw [store_run, if_pos h]

theorem store_error {a : Nat} (h : ¬ inMemory a = true) (v : Byte) (m : Machine γ) :
    (store a v : Exec γ Unit) m = .error (.addressOutOfRange a) m := by
  rw [store_run, if_neg h]

/-! ## Targets -/

theorem absolute_run (k : Int) (m : Machine γ) : (absolute k : Exec γ Nat) m =
    if 0 ≤ k ∧ k < flashSize then .ok k.toNat m else .error (.jumpOutOfRange k) m := by
  unfold absolute
  split <;> rfl

theorem absolute_ok {k : Int} (h : 0 ≤ k ∧ k < flashSize) (m : Machine γ) :
    (absolute k : Exec γ Nat) m = .ok k.toNat m := by
  rw [absolute_run, if_pos h]

theorem absolute_error {k : Int} (h : ¬ (0 ≤ k ∧ k < flashSize)) (m : Machine γ) :
    (absolute k : Exec γ Nat) m = .error (.jumpOutOfRange k) m := by
  rw [absolute_run, if_neg h]

/-- The slot that lies at a distance from the next one. -/
def relativeTarget (m : Machine γ) (k : Int) : Int := (m.pc + 1 + k : Int).bmod 0x10000000000000000

theorem relative_run (k : Int) (m : Machine γ) :
    (relative k : Exec γ Nat) m = (absolute (m.relativeTarget k) : Exec γ Nat) m := rfl

theorem branch_run (k : Int) (m : Machine γ) : (branch true k : Exec γ Control) m =
    if 0 ≤ m.relativeTarget k ∧ m.relativeTarget k < flashSize
    then .ok (.jump (m.relativeTarget k).toNat) (m.countTaken 1)
    else .error (.jumpOutOfRange (m.relativeTarget k)) (m.countTaken 1) := by
  change ((absolute (m.relativeTarget k) : Exec γ Nat) >>= fun target => pure (Control.jump target))
    (m.countTaken 1) = _
  by_cases h : 0 ≤ m.relativeTarget k ∧ m.relativeTarget k < flashSize
  · rw [if_pos h, bind_run_ok (absolute_ok h _)]
    rfl
  · rw [if_neg h, bind_run_error (absolute_error h _)]

/-! ## Parts that leave the machine as it is -/

section Passive

variable {α β : Type}

/-- The machine after a part of an instruction, whether it failed or not. -/
def reached : EStateM.Result Fault (Machine γ) α → Machine γ
  | .ok _ m => m
  | .error _ m => m

/-- The part leaves the machine as it is. -/
def Passive (x : Exec γ α) : Prop := ∀ m, reached (x m) = m

/-- A passive part fails with the same machine, or what comes behind it starts with that. -/
theorem Passive.bind_run {x : Exec γ α} (hx : Passive x) (f : α → Exec γ β) (m : Machine γ) :
    (∃ e, (x >>= f) m = .error e m) ∨ ∃ a, (x >>= f) m = f a m := by
  have hfirst := hx m
  cases hrun : x m with
  | ok a n =>
    rw [hrun] at hfirst
    obtain rfl : n = m := hfirst
    exact .inr ⟨a, bind_run_ok hrun⟩
  | error e n =>
    rw [hrun] at hfirst
    obtain rfl : n = m := hfirst
    exact .inl ⟨e, bind_run_error hrun⟩

theorem Passive.bind {x : Exec γ α} {f : α → Exec γ β} (hx : Passive x) (hf : ∀ a, Passive (f a)) :
    Passive (x >>= f) := by
  intro m
  obtain ⟨e, hrun⟩ | ⟨a, hrun⟩ := hx.bind_run f m
  · rw [hrun]
    rfl
  · rw [hrun]
    exact hf a m

theorem Passive.bind_ok {x : Exec γ α} {f : α → Exec γ β} (hx : Passive x) {m m' : Machine γ} {b : β}
    (h : (x >>= f) m = .ok b m') : ∃ a, f a m = .ok b m' := by
  obtain ⟨e, hrun⟩ | ⟨a, hrun⟩ := hx.bind_run f m
  · rw [hrun] at h
    cases h
  · exact ⟨a, hrun.symm.trans h⟩

theorem passive_throw (f : Fault) : Passive (throw f : Exec γ α) := fun _ => rfl

theorem passive_pure (a : α) : Passive (pure a : Exec γ α) := fun _ => rfl

theorem passive_reg (i : Instruction) (k : Nat) : Passive (i.reg k : Exec γ Nat) := by
  unfold Instruction.reg
  split
  · exact passive_pure _
  · exact passive_throw _

theorem passive_imm (i : Instruction) (k : Nat) : Passive (i.imm k : Exec γ Int) := by
  unfold Instruction.imm
  split
  · exact passive_pure _
  · exact passive_throw _

theorem passive_bit (i : Instruction) (k : Nat) : Passive (i.bit k : Exec γ Nat) :=
  (passive_imm i k).bind fun _ => passive_pure _

theorem passive_ptr (i : Instruction) (k : Nat) : Passive (i.ptr k : Exec γ (Pointer × PointerMode)) := by
  unfold Instruction.ptr
  split
  · exact passive_pure _
  · exact passive_throw _

theorem passive_load (a : Nat) : Passive (load a : Exec γ Byte) := by
  intro m
  rw [load_run]
  split <;> rfl

theorem passive_absolute (k : Int) : Passive (absolute k : Exec γ Nat) := by
  intro m
  rw [absolute_run]
  split <;> rfl

theorem passive_relative (k : Int) : Passive (relative k : Exec γ Nat) := fun m => passive_absolute _ m

end Passive

/-! ## The stack -/

theorem push_run (v : Byte) (m : Machine γ) : (push v : Exec γ Unit) m =
    if m.sp.toNat < ramStart then .error (.stackOverflow m.sp.toNat) m
    else if ramEnd < m.sp.toNat then .error (.addressOutOfRange m.sp.toNat) m
    else .ok () ((m.write m.sp.toNat v).setSp (BitVec.ofNat 16 (m.sp.toNat - 1))) := by
  unfold push
  rw [bind_run_ok (get_run m)]
  dsimp only
  by_cases hlow : m.sp.toNat < ramStart
  · rw [if_pos hlow, if_pos hlow, bind_run_error (throw_run _ m)]
  · rw [if_neg hlow, if_neg hlow]
    by_cases hhigh : ramEnd < m.sp.toNat
    · rw [if_pos hhigh, bind_run_error (store_error (inMemory_of_lt hhigh) v m)]
    · rw [if_neg hhigh, bind_run_ok (store_ok (inMemory_of_le (Nat.not_lt.1 hhigh)) v m)]
      rfl

theorem pop_run (m : Machine γ) : (pop : Exec γ Byte) m =
    if ramEnd ≤ m.sp.toNat then .error (.stackUnderflow m.sp.toNat) m
    else .ok (m.memory.read (m.sp.toNat + 1)) (m.setSp (BitVec.ofNat 16 (m.sp.toNat + 1))) := by
  unfold pop
  rw [bind_run_ok (get_run m)]
  dsimp only
  by_cases hempty : ramEnd ≤ m.sp.toNat
  · rw [if_pos hempty, if_pos hempty, bind_run_error (throw_run _ m)]
  · rw [if_neg hempty, if_neg hempty, bind_run_ok (load_ok (inMemory_of_le (by omega)) m)]
    rfl

def returnTarget (m : Machine γ) : Nat :=
  (wordOf (m.memory.read (m.sp.toNat + 2)) (m.memory.read (m.sp.toNat + 1))).toNat

theorem popReturn_run (m : Machine γ) : (popReturn : Exec γ Nat) m =
    if ramEnd < m.sp.toNat + 2 then .error (.stackUnderflow (max m.sp.toNat ramEnd)) m
    else if flashSize ≤ m.returnTarget then .error (.jumpOutOfRange m.returnTarget) m
    else .ok m.returnTarget (m.setSp (BitVec.ofNat 16 (m.sp.toNat + 2))) := by
  unfold popReturn
  rw [bind_run_ok (get_run m)]
  dsimp only
  by_cases hempty : ramEnd < m.sp.toNat + 2
  · rw [if_pos hempty, if_pos hempty, bind_run_error (throw_run _ m)]
  · rw [if_neg hempty, if_neg hempty, bind_run_ok (load_ok (inMemory_of_le (by omega)) m),
      bind_run_ok (load_ok (inMemory_of_le (by omega)) m)]
    change (absolute m.returnTarget >>= _) m = _
    by_cases htarget : flashSize ≤ m.returnTarget
    · rw [if_pos htarget, bind_run_error (absolute_error (by omega) m)]
    · rw [if_neg htarget, bind_run_ok (absolute_ok (by omega) m)]
      rfl

/-! ## Printing -/

theorem textAt_run (a : Nat) (m : Machine γ) : (textAt a : Exec γ (List Byte)) m =
    match m.memory.string? a with
    | some text => .ok text m
    | none => .error (.unterminatedString a) m := by
  unfold textAt
  rw [bind_run_ok (get_run m)]
  cases m.memory.string? a <;> rfl

theorem print_run [Console γ] (m : Machine γ) : (print : Exec γ Unit) m =
    if ramEnd < m.sp.toNat + 1 then .error (.addressOutOfRange (m.sp.toNat + 1)) m
    else if ramEnd < m.sp.toNat + 2 then .error (.addressOutOfRange (m.sp.toNat + 2)) m
    else match m.memory.string? m.returnTarget with
      | some text =>
        .ok () (({ m with console := Console.emit m.console text } : Machine γ).afterPrint text.length)
      | none => .error (.unterminatedString m.returnTarget) m := by
  unfold print
  rw [bind_run_ok (get_run m)]
  by_cases hone : ramEnd < m.sp.toNat + 1
  · rw [if_pos hone, bind_run_error (load_error (inMemory_of_lt hone) m)]
  · rw [if_neg hone, bind_run_ok (load_ok (inMemory_of_le (Nat.not_lt.1 hone)) m)]
    by_cases htwo : ramEnd < m.sp.toNat + 2
    · rw [if_pos htwo, bind_run_error (load_error (inMemory_of_lt htwo) m)]
    · rw [if_neg htwo, bind_run_ok (load_ok (inMemory_of_le (Nat.not_lt.1 htwo)) m)]
      change (textAt m.returnTarget >>= _) m = _
      have htext := textAt_run m.returnTarget m
      cases hstring : m.memory.string? m.returnTarget with
      | none =>
        rw [hstring] at htext
        rw [bind_run_error htext]
      | some text =>
        rw [hstring] at htext
        rw [bind_run_ok htext]
        rfl

/-- What holds of a machine after every write to a register holds of it after a text has been printed. -/
theorem afterPrint_induction {P : Machine γ → Prop} (hwrite : ∀ m, ∀ r < registerCount, ∀ v, P m → P (m.write r v))
    {m : Machine γ} (h : P m) (length : Nat) : P (m.afterPrint length) := by
  have hclobber (rs : List Nat) (hrs : ∀ r ∈ rs, r < registerCount) (n : Machine γ) (hn : P n) :
      P (rs.foldl (fun n r => n.write r 0xFF) n) := by
    induction rs generalizing n with
    | nil => exact hn
    | cons r rs ih =>
      rw [List.forall_mem_cons] at hrs
      exact ih hrs.2 _ (hwrite n r hrs.1 0xFF hn)
  have hcount : PseudoFunc.countRegisters.1 < registerCount ∧ PseudoFunc.countRegisters.2 < registerCount := by decide
  exact hclobber _ (by decide) _ (hwrite _ _ hcount.2 _ (hwrite _ _ hcount.1 _ h))

theorem console_afterPrint (m : Machine γ) (length : Nat) : (m.afterPrint length).console = m.console :=
  afterPrint_induction (P := fun n => n.console = m.console) (fun _ _ _ _ h => h) rfl length

/-! ## Calls -/

def withReturn (m : Machine γ) (index : Nat) : Machine γ :=
  let sp := m.sp.toNat
  let w := BitVec.ofNat 16 index
  ((m.write sp (lowByte w)).write (sp - 1) (highByte w)).setSp (BitVec.ofNat 16 (sp - 2))

theorem pushReturn_run {m : Machine γ} (h : ramStart < m.sp.toNat ∧ m.sp.toNat ≤ ramEnd) (index : Nat) :
    (pushReturn index : Exec γ Unit) m = .ok () (m.withReturn index) := by
  obtain ⟨hlow, hhigh⟩ := h
  unfold pushReturn
  rw [bind_run_ok (get_run m)]
  dsimp only
  rw [if_neg (by omega), bind_run_ok (store_ok (inMemory_of_le hhigh) _ m),
    bind_run_ok (store_ok (inMemory_of_le (by omega)) _ _)]
  rfl

theorem pushReturn_error {m : Machine γ} (h : m.sp.toNat ≤ ramStart ∨ ramEnd < m.sp.toNat) (index : Nat) :
    (pushReturn index : Exec γ Unit) m =
      if m.sp.toNat < ramStart + 1 then .error (.stackOverflow (min m.sp.toNat (ramStart - 1))) m
      else .error (.addressOutOfRange m.sp.toNat) m := by
  unfold pushReturn
  rw [bind_run_ok (get_run m)]
  dsimp only
  by_cases hlow : m.sp.toNat < ramStart + 1
  · rw [if_pos hlow, if_pos hlow, bind_run_error (throw_run _ m)]
  · rw [if_neg hlow, if_neg hlow, bind_run_error (store_error (inMemory_of_lt (by omega)) _ m)]

theorem call_run {m : Machine γ} (h : ramStart < m.sp.toNat ∧ m.sp.toNat ≤ ramEnd) (target width : Nat) :
    (call target width : Exec γ Control) m = .ok (.jump target) (m.withReturn (m.pc + width)) := by
  have hpush := pushReturn_run h (m.pc + width)
  unfold call
  rw [bind_run_ok (get_run m), bind_run_ok hpush]
  rfl

/-- A call that succeeds has room for the return address, and leaves it on the stack. -/
theorem call_ok {m m' : Machine γ} {target width : Nat} {c : Control}
    (h : (call target width : Exec γ Control) m = .ok c m') :
    (ramStart < m.sp.toNat ∧ m.sp.toNat ≤ ramEnd) ∧ c = .jump target ∧ m' = m.withReturn (m.pc + width) := by
  by_cases hroom : ramStart < m.sp.toNat ∧ m.sp.toNat ≤ ramEnd
  · rw [call_run hroom] at h
    cases h
    exact ⟨hroom, rfl, rfl⟩
  · have hpush := pushReturn_error (m := m) (by omega) (m.pc + width)
    unfold call at h
    rw [bind_run_ok (get_run m)] at h
    split at hpush
    all_goals
      rw [bind_run_error hpush] at h
      cases h

end Avr.Machine

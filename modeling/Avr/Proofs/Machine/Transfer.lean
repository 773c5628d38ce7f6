import Avr.Proofs.Opcode.Behaviour

/-!
# Transfers of control

* `Relative` : the instructions that go to a distance, with that distance; `offset?_eq` : their field `k` holds it;
* `Machine.AboutTo` : the next step executes an instruction; `step_eq_perform` : and does nothing else;
* `Machine.Transfers` : an instruction that goes to its target now: jumps, calls with room on the stack, branches
  whose condition holds;
* `step_relative`, `step_absolute` : where a step goes then.
-/

namespace Avr

open Catalog

variable {γ : Type}

/-! ## Distances -/

/-- The instructions that go to a distance `k` from the next slot, all of them in reach of their field. -/
inductive Relative : Mnemonic → List Operand → Int → Prop
  | rjmp {k : Int} (hk : -2048 ≤ k ∧ k ≤ 2047) : Relative .RJMP [.imm k] k
  | rcall {k : Int} (hk : -2048 ≤ k ∧ k ≤ 2047) : Relative .RCALL [.imm k] k
  | bit (b : StatusBit) (v : Bool) {k : Int} (hk : -64 ≤ k ∧ k ≤ 63) :
    Relative (branchMnemonic v) [.imm b.index, .imm k] k
  | named {m : Mnemonic} {b : StatusBit} {v : Bool} (h : m.branchCondition? = some (b, v)) {k : Int}
    (hk : -64 ≤ k ∧ k ≤ 63) : Relative m [.imm k] k

theorem exists_of_admits_bit {op : Operand} (h : Place.bit.Admits op) : ∃ b : StatusBit, op = .imm b.index := by
  obtain ⟨v, rfl, hv⟩ := h.int
  obtain ⟨h0, h7⟩ := admitsValue_range.1 hv
  have hindex : ∀ n : Nat, n < 8 → (StatusBit.ofIndex n).index = n := by decide
  refine ⟨.ofIndex v.toNat, ?_⟩
  rw [hindex v.toNat (by omega), Int.toNat_of_nonneg h0]

/-- Relative flow is that of the jump and the call, of the two branches on any bit and of the named ones. -/
theorem relative_mnemonic {m : Mnemonic} (h : m.entry.flow = .relative) :
    m = .RJMP ∨ m = .RCALL ∨ (∃ v, m = branchMnemonic v) ∨ ∃ b v, m.branchCondition? = some (b, v) := by
  cases m with
  | RJMP => exact .inl rfl
  | RCALL => exact .inr (.inl rfl)
  | BRBC => exact .inr (.inr (.inl ⟨false, rfl⟩))
  | BRBS => exact .inr (.inr (.inl ⟨true, rfl⟩))
  | BRCC | BRSH | BRCS | BRLO | BRNE | BREQ | BRPL | BRMI | BRVC | BRVS | BRGE | BRLT | BRHC | BRHS | BRTC | BRTS
  | BRID | BRIE => exact .inr (.inr (.inr ⟨_, _, rfl⟩))
  | _ => cases h

/-- What an admitted instruction with relative flow is, if its last operand is a number. -/
theorem relative_of_admitted {m : Mnemonic} {ops : List Operand} {k : Int} (hm : m.entry.flow = .relative)
    (ha : Admitted m ops) (hk : ops.getLast? = some (.imm k)) : Relative m ops k := by
  rcases relative_mnemonic hm with rfl | rfl | ⟨v, rfl⟩ | ⟨b, v, hbranch⟩
  · obtain ⟨op, rfl, hop⟩ := exists_of_admits_one rfl ha
    obtain ⟨k', rfl, hk'⟩ := hop.int
    cases hk
    exact .rjmp (admitsValue_range.1 hk')
  · obtain ⟨op, rfl, hop⟩ := exists_of_admits_one rfl ha
    cases hk
    obtain ⟨f, hf⟩ | ⟨k', hk', hrange⟩ := hop.intOrFunc
    · cases hf
    · cases hk'
      exact .rcall (admitsValue_range.1 hrange)
  · have hargs : (branchMnemonic v).entry.args = [Place.bit, Place.near] := by cases v <;> rfl
    obtain ⟨op, op', rfl, hop, hop'⟩ := exists_of_admits_two hargs ha
    obtain ⟨b, rfl⟩ := exists_of_admits_bit hop
    obtain ⟨k', rfl, hk'⟩ := hop'.int
    cases hk
    exact .bit b v (admitsValue_range.1 hk')
  · obtain ⟨op, rfl, hop⟩ := exists_of_admits_one (args_branch hbranch).1 ha
    obtain ⟨k', rfl, hk'⟩ := hop.int
    cases hk
    exact .named hbranch (admitsValue_range.1 hk')

def signedOfBits (bits : List Bool) : Int := (numberOfBits bits : Int).bmod (2 ^ bits.length)

/-- The field `k` of the opcode as a number in two's complement. -/
def Instruction.offset? (i : Instruction) : Option Int :=
  match i.mnemonic.entry.encoding with
  | .template _ bits => some (signedOfBits (fieldBits 'k' bits.toList i.opcode.toList))
  | .irregular => none

/-- A number in reach of `w + 1` bits is what they say in two's complement. -/
theorem signedOfBits_lowBits {w : Nat} {v : Int} (hv : -2 ^ w ≤ v ∧ v ≤ 2 ^ w - 1) :
    signedOfBits (lowBits (w + 1) v) = v := by
  have hcast : (2 : Int) ^ (w + 1) = ((2 ^ (w + 1) : Nat) : Int) := by push_cast; rfl
  rw [signedOfBits, numberOfBits_lowBits, length_lowBits, hcast, Int.emod_bmod]
  rw [pow_succ] at hcast ⊢
  refine Int.bmod_eq_of_le ?_ ?_ <;> push_cast <;> omega

theorem offset?_of_template {m : Mnemonic} {ops : List Operand} {o bits : String} {l w : Nat} {fields : List Char}
    {values : List (Char × Int)} {k : Int} (henc : m.entry.encoding = .template fields bits)
    (hvalues : fieldValues? fields ops = some values) (hk : values.lookup 'k' = some k)
    (hcount : bits.toList.count 'k' = w + 1) (hrange : -2 ^ w ≤ k ∧ k ≤ 2 ^ w - 1) (ho : encode m ops = some o) :
    (⟨m, ops, o, l⟩ : Instruction).offset? = some k := by
  have hlettered := lettered_of_fieldValues? henc hvalues
  unfold encode at ho
  rw [henc] at ho
  dsimp only at ho
  rw [hvalues] at ho
  cases ho
  unfold Instruction.offset?
  dsimp only
  rw [henc]
  dsimp only
  rw [String.toList_ofList, fieldBits_fill hlettered hk, hcount, signedOfBits_lowBits hrange]

theorem offset?_eq {i : Instruction} {k : Int} (h : Relative i.mnemonic i.operands k)
    (ho : encode i.mnemonic i.operands = some i.opcode) : i.offset? = some k := by
  obtain ⟨m, ops, o, l⟩ := i
  dsimp only at h ho
  cases h with
  | rjmp hk => exact offset?_of_template (w := 11) rfl rfl rfl (by decide +kernel) hk ho
  | rcall hk => exact offset?_of_template (w := 11) rfl rfl rfl (by decide +kernel) hk ho
  | bit b v hk =>
    cases v
    all_goals exact offset?_of_template (w := 6) rfl rfl rfl (by decide +kernel) hk ho
  | named hbranch hk =>
    have htemplate : ∃ bits, m.entry.encoding = .template ['k'] bits ∧ bits.toList.count 'k' = 7 := by
      cases m <;> cases hbranch
      all_goals exact ⟨_, rfl, by decide +kernel⟩
    obtain ⟨bits, henc, hcount⟩ := htemplate
    exact offset?_of_template (w := 6) henc rfl rfl hcount hk ho

/-! ## Steps -/

def Instruction.branchesOn? (i : Instruction) : Option (StatusBit × Bool) :=
  match i.mnemonic, i.operands with
  | .BRBC, .imm n :: _ => some (.ofIndex n.toNat, false)
  | .BRBS, .imm n :: _ => some (.ofIndex n.toNat, true)
  | m, _ => m.branchCondition?

namespace Machine

/-- The next step executes an instruction: the machine is running, and neither its breakpoint nor the end of flash nor
its limit stops it. -/
structure AboutTo (m : Machine γ) (i : Instruction) : Prop where
  fetched : m.image.program[m.pc]? = some (.inst i)
  running : m.condition = .running
  breakpoint : m.image.breakpoint ≠ some m.pc
  inFlash : m.pc < flashEnd
  limit : m.limitReached? = none

theorem step_eq_perform [Console γ] {m : Machine γ} {i : Instruction} (h : m.AboutTo i) :
    m.step = ({ m with memory := m.memory.clearChanges } : Machine γ).perform i := by
  unfold step
  rw [h.running]
  dsimp only
  rw [if_neg h.breakpoint, if_neg (Nat.not_le.2 h.inFlash), h.limit]
  exact dispatch_eq_perform h.fetched

/-- An instruction that goes to its target now: a jump, a call with room for the return address on the stack, or a
branch whose condition holds. -/
def Transfers (m : Machine γ) (i : Instruction) : Prop :=
  match i.mnemonic with
  | .RJMP | .JMP => True
  | .RCALL | .CALL => ramStart < m.sp.toNat ∧ m.sp.toNat ≤ ramEnd
  | _ => ∃ b v, i.branchesOn? = some (b, v) ∧ m.flag b = v

theorem flag_of_transfers_bit {m : Machine γ} {b : StatusBit} {v : Bool} {k : Int} {o : String} {l : Nat}
    (h : m.Transfers ⟨branchMnemonic v, [.imm b.index, .imm k], o, l⟩) : m.flag b = v := by
  cases v
  all_goals
    obtain ⟨b', v', hb, hflag⟩ := h
    cases b <;> cases hb <;> exact hflag

theorem flag_of_transfers_named {m : Machine γ} {mn : Mnemonic} {b : StatusBit} {v : Bool} {ops : List Operand}
    {o : String} {l : Nat} (hb : mn.branchCondition? = some (b, v)) (h : m.Transfers ⟨mn, ops, o, l⟩) :
    m.flag b = v := by
  cases mn <;> cases hb
  all_goals
    obtain ⟨b', v', hb', hflag⟩ := h
    cases hb'
    exact hflag

theorem branchOn_run {m : Machine γ} {b : StatusBit} {v : Bool} {k : Int} (hflag : m.flag b = v)
    (hk : 0 ≤ m.relativeTarget k ∧ m.relativeTarget k < flashSize) :
    (branchOn b v k : Exec γ Control) m = .ok (.jump (m.relativeTarget k).toNat) (m.countTaken 1) := by
  have hrun : (branchOn b v k : Exec γ Control) m = (branch (m.flag b == v) k : Exec γ Control) m := rfl
  rw [hrun, hflag, beq_self_eq_true, branch_run, if_pos hk]

theorem execute_relative [Console γ] {m : Machine γ} {i : Instruction} {k : Int}
    (h : Relative i.mnemonic i.operands k) (ht : m.Transfers i)
    (hk : 0 ≤ m.relativeTarget k ∧ m.relativeTarget k < flashSize) :
    ∃ m', execute i m = .ok (.jump (m.relativeTarget k).toNat) m' ∧ m'.condition = m.condition := by
  obtain ⟨mn, ops, o, l⟩ := i
  dsimp only at h
  cases h with
  | rjmp _ =>
    have hrun : execute ⟨.RJMP, [.imm k], o, l⟩ =
        ((relative k >>= fun target => pure (.jump target)) : Exec γ Control) := rfl
    rw [hrun]
    simp only [bind, EStateM.bind, relative_run, absolute_run, if_pos hk]
    exact ⟨m, rfl, rfl⟩
  | rcall _ =>
    have hrun : execute ⟨.RCALL, [.imm k], o, l⟩ = ((relative k >>= fun target => call target 1) : Exec γ Control) := rfl
    rw [hrun]
    simp only [bind, EStateM.bind, relative_run, absolute_run, if_pos hk, call_run ht]
    exact ⟨_, rfl, rfl⟩
  | bit b v _ =>
    rw [execute_bit, branchOn_run (flag_of_transfers_bit ht) hk]
    exact ⟨_, rfl, rfl⟩
  | named hb _ =>
    rw [execute_named hb, branchOn_run (flag_of_transfers_named hb ht) hk]
    exact ⟨_, rfl, rfl⟩

theorem execute_absolute [Console γ] {m : Machine γ} {i : Instruction} {k : Int}
    (hm : i.mnemonic.entry.flow = .absolute) (hops : i.operands = [.imm k]) (ht : m.Transfers i)
    (hk : 0 ≤ k ∧ k < flashSize) :
    ∃ m', execute i m = .ok (.jump k.toNat) m' ∧ m'.condition = m.condition := by
  obtain ⟨mn, ops, o, l⟩ := i
  dsimp only at hops
  subst hops
  cases mn with
  | JMP =>
    have hrun : execute ⟨.JMP, [.imm k], o, l⟩ =
        ((absolute k >>= fun target => pure (.jump target)) : Exec γ Control) := rfl
    rw [hrun]
    simp only [bind, EStateM.bind, absolute_run, if_pos hk]
    exact ⟨m, rfl, rfl⟩
  | CALL =>
    have hrun : execute ⟨.CALL, [.imm k], o, l⟩ = ((absolute k >>= fun target => call target 2) : Exec γ Control) := rfl
    rw [hrun]
    simp only [bind, EStateM.bind, absolute_run, if_pos hk, call_run ht]
    exact ⟨_, rfl, rfl⟩
  | _ => cases hm

/-- A step that executes an instruction which goes to a slot leaves the machine there. -/
theorem step_of_jump [Console γ] {m : Machine γ} {i : Instruction} {target : Nat} (h : m.AboutTo i)
    (hrun : ∀ a : Machine γ, a.pc = m.pc → a.condition = m.condition → (a.Transfers i ↔ m.Transfers i) →
      ∃ m', execute i a = .ok (.jump target) m' ∧ m'.condition = a.condition) :
    m.step.pc = target ∧ m.step.condition = .running := by
  rw [step_eq_perform h]
  obtain ⟨m', hexec, hcond⟩ := hrun (({ m with memory := m.memory.clearChanges } : Machine γ).account i) rfl rfl Iff.rfl
  unfold perform EStateM.run
  rw [hexec]
  exact ⟨rfl, hcond.trans h.running⟩

theorem step_relative [Console γ] {m : Machine γ} {i : Instruction} {k : Int} {target : Nat} (h : m.AboutTo i)
    (hi : Relative i.mnemonic i.operands k) (ht : m.Transfers i) (hk : m.pc + 1 + k = target)
    (htarget : target < flashSize) : m.step.pc = target ∧ m.step.condition = .running := by
  refine step_of_jump h fun a hpc _ hta => ?_
  have hrelative : a.relativeTarget k = target := by
    have hsize : (flashSize : Int) = 16384 := rfl
    rw [relativeTarget, hpc, hk]
    refine Int.bmod_eq_of_le ?_ ?_ <;> omega
  have hexec := execute_relative hi (hta.2 ht) (by rw [hrelative]; omega)
  rwa [hrelative, Int.toNat_natCast] at hexec

theorem step_absolute [Console γ] {m : Machine γ} {i : Instruction} {target : Nat} (h : m.AboutTo i)
    (hi : i.mnemonic.entry.flow = .absolute) (hops : i.operands = [.imm target]) (ht : m.Transfers i)
    (htarget : target < flashSize) : m.step.pc = target ∧ m.step.condition = .running := by
  refine step_of_jump h fun a _ _ hta => ?_
  have hexec := execute_absolute hi hops (hta.2 ht) (by omega)
  rwa [Int.toNat_natCast] at hexec

end Machine

end Avr

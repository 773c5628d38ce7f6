import Avr.Proofs.Machine.Reachable
import Avr.Proofs.Machine.Stack

/-!
# Runs on the stack and returns that match calls

* `Machine.Follows` : program counter, condition and registers after an instruction on the stack;
* `Machine.Executes`, `Executes.onStack` : such an instruction, alone or as a step, does its action;
* `StackRun`, `StackRun.holds` : any number of them; `StackRun.suffix` : what lies on the stack stays while the stack
  does not get below it;
* `stack_refines` : the stack of a machine is a bounded list of bytes, and a return that matches a call goes to the
  slot behind the call.
-/

namespace Avr

variable {γ : Type}

/-! ## One instruction -/

namespace StackReply

def pc (here behind : Nat) : StackReply → Nat
  | next | load _ _ => behind
  | jump target => target
  | stop | fail _ => here

def condition (before : Condition) : StackReply → Condition
  | stop => .finished
  | fail f => .errored f
  | _ => before

end StackReply

namespace Machine

/-- The machine after an instruction that ends so: where it goes, whether it goes on, and what its registers are. -/
structure Follows (m : Machine γ) (i : Instruction) (reply : StackReply) (m' : Machine γ) : Prop where
  pc : m'.pc = reply.pc m.pc (m.pc + i.width)
  condition : m'.condition = reply.condition m.condition
  register : ∀ r < registerCount, m'.register r = reply.register r (m.register r)

variable [Console γ] {m m' : Machine γ} {s : List Byte} {i : Instruction}

theorem perform_of_obeys {out : List Byte × StackReply} (h : (m.account i).Obeys (execute i) out) :
    (m.perform i).Holds out.1 ∧ m.Follows i out.2 (m.perform i) := by
  obtain ⟨m', hrun, hholds, hframe, hregister⟩ := h
  obtain ⟨s', reply⟩ := out
  have hpc : m'.pc = m.pc := hframe.pc
  have hcondition : m'.condition = m.condition := hframe.condition
  have hholds' : ∀ c, (m'.proceed i c).Holds s' := fun c => by cases c <;> exact hholds.congr rfl fun _ _ => rfl
  unfold perform EStateM.run
  rw [hrun]
  cases reply with
  | next | load r v => exact ⟨hholds' .next, congrArg (· + i.width) hpc, hcondition, hregister⟩
  | jump target => exact ⟨hholds' (.jump target), rfl, hcondition, hregister⟩
  | stop => exact ⟨hholds' .stop, hpc, rfl, hregister⟩
  | fail f => exact ⟨hholds.congr rfl fun _ _ => rfl, hpc, rfl, hregister⟩

/-- A machine executes an instruction: whatever its program holds, or as its next step. -/
def Executes (m : Machine γ) (i : Instruction) (m' : Machine γ) : Prop :=
  m' = m.perform i ∨ m.AboutTo i ∧ m' = m.step

theorem Executes.onStack (hm : m.Executes i m') (hi : i.OnStack) :
    ∃ a, m.action? i = some a ∧ ∀ s, m.Holds s → m'.Holds (a.run s).1 ∧ m.Follows i (a.run s).2 m' := by
  obtain rfl | ⟨habout, rfl⟩ := hm
  · obtain ⟨a, ha, hobeys⟩ := exists_obeys hi (m.account i)
    exact ⟨a, ha, fun s h => perform_of_obeys (hobeys s (h.congr rfl fun _ _ => rfl))⟩
  · obtain ⟨a, ha, hobeys⟩ := exists_obeys hi (m.cleared.account i)
    refine ⟨a, ha, fun s h => ?_⟩
    rw [step_eq_perform habout]
    obtain ⟨hholds, hfollows⟩ := perform_of_obeys (hobeys s (h.congr rfl fun _ _ => rfl))
    exact ⟨hholds, hfollows.pc, hfollows.condition, hfollows.register⟩

/-! ## Runs -/

/-- Instructions on the stack executed one after another, during which the stack `s` becomes `s'` and never has less
than `n` bytes. -/
inductive StackRun (n : Nat) : Machine γ → List Byte → Machine γ → List Byte → Prop
  | refl (m : Machine γ) (s : List Byte) : StackRun n m s m s
  | cons {m m' m'' : Machine γ} {s s'' : List Byte} {i : Instruction} {a : StackAction} (hi : i.OnStack)
    (ha : m.action? i = some a) (hm : m.Executes i m') (hn : n ≤ (a.run s).1.length)
    (h : StackRun n m' (a.run s).1 m'' s'') : StackRun n m s m'' s''

theorem StackRun.holds {n : Nat} {s' : List Byte} (h : StackRun n m s m' s') (hs : m.Holds s) : m'.Holds s' := by
  induction h with
  | refl => exact hs
  | cons hi ha hm _ _ ih =>
    obtain ⟨a, ha', hholds⟩ := hm.onStack hi
    obtain rfl := Option.some.inj (ha.symm.trans ha')
    exact ih (hholds _ hs).1

end Machine

/-- An action leaves all of the stack below what it puts there or takes away. -/
theorem StackAction.suffix_run (a : StackAction) (s : List Byte) : (a.run s).1 <:+ s ∨ s <:+ (a.run s).1 := by
  match a, s with
  | push v, s =>
    rw [run]
    split
    · exact .inr (List.suffix_cons v s)
    · exact .inl s.suffix_refl
  | pop _, [] => exact .inl List.suffix_rfl
  | pop _, v :: s => exact .inl (List.suffix_cons v s)
  | call _ _, s =>
    rw [run]
    split
    · split
      · exact .inr ((List.suffix_cons _ s).trans (List.suffix_cons _ _))
      · exact .inl s.suffix_refl
    · exact .inl s.suffix_refl
  | ret, [] | ret, [_] => exact .inl List.suffix_rfl
  | ret, high :: low :: s =>
    rw [run]
    split
    · exact .inl ((List.suffix_cons low s).trans (List.suffix_cons high _))
    · exact .inl List.suffix_rfl

namespace Machine

variable [Console γ] {m m' : Machine γ} {s s' base : List Byte}

/-- What lies on the stack stays while the stack does not get below it. -/
theorem StackRun.suffix (h : StackRun base.length m s m' s') (hbase : base <:+ s) : base <:+ s' := by
  induction h with
  | refl => exact hbase
  | @cons m m' m'' s s'' i a hi ha hm hn h ih =>
    refine ih ?_
    obtain hsuffix | hsuffix := a.suffix_run s
    · exact List.suffix_of_suffix_length_le hbase hsuffix hn
    · exact hbase.trans hsuffix

theorem run_call_ok {target : Int} {back : Nat} (htarget : 0 ≤ target ∧ target < flashSize)
    (hroom : s.length + 2 ≤ stackCapacity) : (StackAction.call target back).run s =
      (highByte (BitVec.ofNat 16 back) :: lowByte (BitVec.ofNat 16 back) :: s, .jump target.toNat) := by
  rw [StackAction.run, if_pos htarget, if_pos hroom]

/-- A return takes back what a call has put on the stack. -/
theorem run_ret_call {back : Nat} (hback : back < flashSize) (s : List Byte) :
    StackAction.ret.run (highByte (BitVec.ofNat 16 back) :: lowByte (BitVec.ofNat 16 back) :: s) = (s, .jump back) := by
  have hsize : flashSize < 2 ^ 16 := by decide
  have hword : (wordOf (lowByte (BitVec.ofNat 16 back)) (highByte (BitVec.ofNat 16 back))).toNat = back := by
    rw [wordOf_bytes, BitVec.toNat_ofNat, Nat.mod_eq_of_lt (by omega)]
  rw [StackAction.run, hword, if_pos hback]

/-- Behind a call the stack never gets below the return address, and is down to it in the end: a return goes to the
slot behind the call then. -/
theorem StackRun.returns {target : Int} {back : Nat} (htarget : 0 ≤ target ∧ target < flashSize)
    (hroom : s.length + 2 ≤ stackCapacity) (hback : back < flashSize)
    (h : StackRun (s.length + 2) m ((StackAction.call target back).run s).1 m' s') (hlength : s'.length = s.length + 2)
    (hs : m.Holds ((StackAction.call target back).run s).1) {j : Instruction} (hj : j.OnStack)
    (hret : j.mnemonic ∈ [.RET, .RETI]) {m'' : Machine γ} (hm : m'.Executes j m'') :
    m''.Holds s ∧ m''.pc = back ∧ m''.condition = m'.condition := by
  have hholds := h.holds hs
  rw [run_call_ok htarget hroom] at h
  have hsuffix : highByte (BitVec.ofNat 16 back) :: lowByte (BitVec.ofNat 16 back) :: s <:+ s' :=
    StackRun.suffix h List.suffix_rfl
  obtain rfl := hsuffix.eq_of_length hlength.symm
  obtain ⟨a, ha, hexec⟩ := hm.onStack hj
  obtain rfl := Option.some.inj ((action?_ret hret m').symm.trans ha)
  obtain ⟨hholds', hfollows⟩ := hexec _ hholds
  rw [run_ret_call hback] at hholds' hfollows
  exact ⟨hholds', hfollows.pc, hfollows.condition⟩

/-- The stack in data memory is a bounded list of bytes. Instructions on the stack do to it what their actions do to the
list, alone, as steps and in runs of any length; and a return that matches a call goes to the slot behind the call. -/
theorem stack_refines (h : m.Holds s) :
    (∀ i m', i.OnStack → m.Executes i m' → ∃ a, m.action? i = some a ∧
      m'.Holds (a.run s).1 ∧ m.Follows i (a.run s).2 m') ∧
    (∀ m' s', StackRun 0 m s m' s' → m'.Holds s') ∧
    ∀ i target called, i.OnStack → m.action? i = some (.call target (m.pc + i.width)) →
      0 ≤ target ∧ target < flashSize → s.length + 2 ≤ stackCapacity → m.Executes i called →
      ∀ m' s', StackRun (s.length + 2) called ((StackAction.call target (m.pc + i.width)).run s).1 m' s' →
        s'.length = s.length + 2 → ∀ j m'', j.OnStack → j.mnemonic ∈ [.RET, .RETI] → m'.Executes j m'' →
          m.pc + i.width < flashSize →
          m''.Holds s ∧ m''.pc = m.pc + i.width ∧ m''.condition = m'.condition := by
  refine ⟨fun i m' hi hm => ?_, fun m' s' hrun => hrun.holds h, ?_⟩
  · obtain ⟨a, ha, hexec⟩ := hm.onStack hi
    exact ⟨a, ha, hexec s h⟩
  · intro i target called hi ha htarget hroom hcall m' s' hrun hlength j m'' hj hret hm hback
    obtain ⟨a, ha', hexec⟩ := hcall.onStack hi
    obtain rfl := Option.some.inj (ha.symm.trans ha')
    exact hrun.returns htarget hroom hback hlength (hexec s h).1 hj hret hm

theorem holds_start {δ : Type} (image : Image) (limit : StepLimit) (console : δ) :
    (start image limit console).Holds [] := by
  have hsp : (start image limit console).sp = BitVec.ofNat 16 ramEnd :=
    sp_setSp { start image limit console with
      memory := ({ cells := image.data } : Memory).writePair entryLowCell 0 } (BitVec.ofNat 16 ramEnd)
  refine ⟨?_, Nat.zero_le _, nofun⟩
  rw [hsp]
  rfl

def idle (n : Nat) : Machine (Array Byte) :=
  { start ⟨#[], Vector.replicate ramSize 0, none, .empty, 0, 0⟩ none #[] with pc := n }

theorem onStack_call : (⟨.CALL, [.imm 5], "", 1⟩ : Instruction).OnStack :=
  ⟨by decide, .cons ⟨by decide, .inr ⟨rfl, by decide⟩, nofun⟩ .nil, rfl⟩

theorem onStack_push : (⟨.PUSH, [.reg 0], "", 2⟩ : Instruction).OnStack :=
  ⟨by decide, .cons ⟨by decide, .inr ⟨rfl, by decide⟩, nofun⟩ .nil, rfl⟩

theorem onStack_pop : (⟨.POP, [.reg 1], "", 3⟩ : Instruction).OnStack :=
  ⟨by decide, .cons ⟨by decide, .inr ⟨rfl, by decide⟩, nofun⟩ .nil, rfl⟩

theorem onStack_ret : (⟨.RET, [], "", 4⟩ : Instruction).OnStack := ⟨by decide, .nil, rfl⟩

/-- Between a call and its return a register is pushed and popped into another one. -/
theorem stack_refines_balanced : (idle 7).Holds [] ∧
    let m := (idle 7).perform ⟨.CALL, [.imm 5], "", 1⟩
    let m' := (m.perform ⟨.PUSH, [.reg 0], "", 2⟩).perform ⟨.POP, [.reg 1], "", 3⟩
    m.Holds [highByte 9, lowByte 9] ∧ (m'.perform ⟨.RET, [], "", 4⟩).pc = 9 ∧
      (m'.perform ⟨.RET, [], "", 4⟩).Holds [] := by
  have hidle : (idle 7).Holds [] := (holds_start (idle 7).image none #[]).congr rfl fun _ _ => rfl
  obtain ⟨hone, -, hreturn⟩ := stack_refines hidle
  refine ⟨hidle, ?_⟩
  intro m m'
  obtain ⟨a, ha, hm, -⟩ := hone _ m onStack_call (.inl rfl)
  obtain rfl := Option.some.inj ha
  have hrun : StackRun 2 m [highByte 9, lowByte 9] m' [highByte 9, lowByte 9] :=
    .cons onStack_push rfl (.inl rfl) (by decide) (.cons onStack_pop rfl (.inl rfl) (by decide) (.refl _ _))
  obtain ⟨hholds, hpc, -⟩ := hreturn _ 5 m onStack_call rfl (by decide) (by decide) (.inl rfl) m' _ hrun rfl _ _
    onStack_ret (by decide) (.inl rfl) (by decide)
  exact ⟨hm, hpc, hholds⟩

end Machine

end Avr

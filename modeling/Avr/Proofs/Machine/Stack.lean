import Avr.Proofs.Machine.Operation
import Avr.Proofs.Machine.Transfer

/-!
# The stack as a bounded list of bytes

* `StackAction`, `StackAction.run` : what can be done to a list of at most `stackCapacity` bytes, and how it ends;
* `Machine.Holds` : the stack of a machine holds a list of bytes, the top first;
* `Machine.Obeys` : a part of an instruction does to the machine what an action does to the list; `obeys_push`,
  `obeys_pop`, `obeys_call`, `obeys_ret` : the parts do;
* `Instruction.OnStack`, `Machine.action?` : the instructions that work on the stack and the action of each;
* `exists_obeys` : such an instruction does its action.
-/

namespace Avr

variable {γ : Type}

/-! ## A bounded list of bytes -/

def stackCapacity : Nat := ramEnd + 1 - ramStart

inductive StackAction
  | push (v : Byte)
  /-- The top goes to a register. -/
  | pop (r : Nat)
  /-- A call of a target that leaves the slot to come back to. -/
  | call (target : Int) (back : Nat)
  | ret

inductive StackReply
  | next
  | load (r : Nat) (v : Byte)
  | jump (target : Nat)
  | stop
  | fail (f : Fault)

/-- The stack after an action, the top first, and how the action ends. What fails changes nothing. -/
def StackAction.run : StackAction → List Byte → List Byte × StackReply
  | push v, s => if s.length < stackCapacity then (v :: s, .next) else (s, .fail (.stackOverflow (ramStart - 1)))
  | pop _, [] => ([], .fail (.stackUnderflow ramEnd))
  | pop r, v :: s => (s, .load r v)
  | call target back, s =>
    if 0 ≤ target ∧ target < flashSize then
      if s.length + 2 ≤ stackCapacity then
        (highByte (BitVec.ofNat 16 back) :: lowByte (BitVec.ofNat 16 back) :: s, .jump target.toNat)
      else (s, .fail (.stackOverflow (ramStart - 1)))
    else (s, .fail (.jumpOutOfRange target))
  | ret, [] => ([], .stop)
  | ret, [v] => ([v], .fail (.stackUnderflow ramEnd))
  | ret, high :: low :: s =>
    if (wordOf low high).toNat < flashSize then (s, .jump (wordOf low high).toNat)
    else (high :: low :: s, .fail (.jumpOutOfRange (wordOf low high).toNat))

namespace StackReply

def result : StackReply → Machine γ → EStateM.Result Fault (Machine γ) Control
  | next, m | load _ _, m => .ok .next m
  | jump target, m => .ok (.jump target) m
  | stop, m => .ok .stop m
  | fail f, m => .error f m

def register (n : Nat) (old : Byte) : StackReply → Byte
  | load r v => if r = n then v else old
  | _ => old

end StackReply

/-! ## The stack of a machine -/

theorem wordOf_bytes (w : Word) : wordOf (lowByte w) (highByte w) = w := by
  refine BitVec.eq_of_toNat_eq ?_
  rw [toNat_wordOf, toNat_lowByte, toNat_highByte]
  omega

namespace Machine

theorem read_setSp (m : Machine γ) (w : Word) {a : Nat} (hlow : a ≠ stackLowCell) (hhigh : a ≠ stackHighCell) :
    (m.setSp w).memory.read a = m.memory.read a := by
  change ((m.memory.write stackLowCell (lowByte w)).write (stackLowCell + 1) (highByte w)).read a = _
  rw [Memory.read_write, if_neg (fun h => hhigh h.1.symm), Memory.read_write, if_neg (fun h => hlow h.1.symm)]

theorem sp_setSp (m : Machine γ) (w : Word) : (m.setSp w).sp = w := by
  change wordOf (((m.memory.write stackLowCell (lowByte w)).write (stackLowCell + 1) (highByte w)).read stackLowCell)
    (((m.memory.write stackLowCell (lowByte w)).write (stackLowCell + 1) (highByte w)).read (stackLowCell + 1)) = w
  rw [Memory.read_write, if_neg (by decide), Memory.read_write, if_pos (by decide), Memory.read_write,
    if_pos (by decide), wordOf_bytes]

theorem sp_write (m : Machine γ) {a : Nat} (hlow : a ≠ stackLowCell) (hhigh : a ≠ stackHighCell) (v : Byte) :
    (m.write a v).sp = m.sp := by
  change wordOf ((m.memory.write a v).read stackLowCell) ((m.memory.write a v).read (stackLowCell + 1)) = _
  rw [Memory.read_write, if_neg (fun h => hlow h.1), Memory.read_write, if_neg (fun h => hhigh h.1)]
  rfl

theorem sp_setFlag (m : Machine γ) (b : StatusBit) (v : Bool) : (m.setFlag b v).sp = m.sp :=
  sp_write m (by decide) (by decide) _

theorem read_setFlag (m : Machine γ) (b : StatusBit) (v : Bool) {a : Nat} (ha : a ≠ statusCell) :
    (m.setFlag b v).memory.read a = m.memory.read a := by
  change (m.memory.write statusCell _).read a = _
  rw [Memory.read_write, if_neg (fun h => ha h.1.symm)]

/-- The stack holds these bytes, the top first: they lie behind the stack pointer, up to the end of data memory. -/
structure Holds (m : Machine γ) (s : List Byte) : Prop where
  depth : m.sp.toNat + s.length = ramEnd
  room : s.length ≤ stackCapacity
  spells : ∀ n v, s[n]? = some v → m.memory.read (m.sp.toNat + 1 + n) = v

namespace Holds

variable {m m' : Machine γ} {s : List Byte}

theorem sp_bounds (h : m.Holds s) : ramStart ≤ m.sp.toNat + 1 ∧ m.sp.toNat ≤ ramEnd := by
  have hdepth := h.depth
  have hroom := h.room
  have hcapacity : stackCapacity + ramStart = ramEnd + 1 := rfl
  omega

theorem congr (h : m.Holds s) (hsp : m'.sp = m.sp)
    (hcells : ∀ a, ramStart ≤ a → m'.memory.read a = m.memory.read a) : m'.Holds s := by
  have hbounds := h.sp_bounds
  refine ⟨hsp ▸ h.depth, h.room, fun n v hv => ?_⟩
  rw [hsp, hcells _ (by omega)]
  exact h.spells n v hv

/-- A byte in the cell that the stack pointer points to, and the pointer below it. -/
theorem cons (h : m.Holds s) (hroom : s.length < stackCapacity) {v : Byte} (hsp : m'.sp.toNat + 1 = m.sp.toNat)
    (htop : m'.memory.read m.sp.toNat = v)
    (hcells : ∀ a, m.sp.toNat < a → m'.memory.read a = m.memory.read a) : m'.Holds (v :: s) := by
  have hdepth := h.depth
  refine ⟨?_, hroom, fun n b hb => ?_⟩
  · rw [List.length_cons]
    omega
  · cases n with
    | zero =>
      rw [Nat.add_zero, hsp, htop]
      exact Option.some.inj hb
    | succ n =>
      rw [hsp, hcells _ (by omega), ← Nat.add_assoc, Nat.add_right_comm]
      exact h.spells n b hb

/-- The top byte left behind, and the pointer on it. -/
theorem tail {v : Byte} (h : m.Holds (v :: s)) (hsp : m'.sp.toNat = m.sp.toNat + 1)
    (hcells : ∀ a, ramStart ≤ a → m'.memory.read a = m.memory.read a) : m'.Holds s := by
  have hdepth := h.depth
  have hroom := h.room
  have hbounds := h.sp_bounds
  rw [List.length_cons] at hdepth hroom
  refine ⟨by omega, by omega, fun n b hb => ?_⟩
  rw [hsp, hcells _ (by omega), ← h.spells (n + 1) b hb]
  congr 1
  omega

theorem top {v : Byte} (h : m.Holds (v :: s)) : m.memory.read (m.sp.toNat + 1) = v := h.spells 0 v rfl

end Holds

/-! ## Parts of instructions -/

/-- A part of an instruction ends as an action on the stack does, and leaves the same bytes on the stack. Of the
registers it changes only the one that the action loads. -/
def Obeys (m : Machine γ) (x : Exec γ Control) (out : List Byte × StackReply) : Prop :=
  ∃ m' : Machine γ, x m = out.2.result m' ∧ m'.Holds out.1 ∧ m.Frame m' ∧
    ∀ r < registerCount, m'.register r = out.2.register r (m.register r)

variable {m : Machine γ} {s : List Byte}

theorem Obeys.congr {x y : Exec γ Control} {out : List Byte × StackReply} (h : m.Obeys x out) (hxy : y m = x m) :
    m.Obeys y out := by
  obtain ⟨m', hx, hrest⟩ := h
  exact ⟨m', hxy.trans hx, hrest⟩

theorem Holds.obeys_fail (h : m.Holds s) {x : Exec γ Control} {f : Fault} (hx : x m = .error f m) :
    m.Obeys x (s, .fail f) := ⟨m, hx, h, .refl m, fun _ _ => rfl⟩

theorem register_setSp (m : Machine γ) (w : Word) {r : Nat} (hr : r < registerCount) :
    (m.setSp w).register r = m.register r := by
  have hlow : registerCount < stackLowCell := by decide
  have hhigh : registerCount < stackHighCell := by decide
  exact read_setSp m w (by omega) (by omega)

theorem sp_write_register (m : Machine γ) {d : Nat} (hd : d < registerCount) (v : Byte) : (m.write d v).sp = m.sp := by
  have hlow : registerCount < stackLowCell := by decide
  have hhigh : registerCount < stackHighCell := by decide
  exact sp_write m (by omega) (by omega) v

theorem read_write_register (m : Machine γ) {d : Nat} (hd : d < registerCount) (v : Byte) (a : Nat) :
    (m.write d v).memory.read a = if d = a then v else m.memory.read a := by
  have hsize : registerCount < ramSize := by decide
  change (m.memory.write d v).read a = _
  rw [Memory.read_write]
  simp only [hd.trans hsize, and_true]

theorem register_write (m : Machine γ) {a : Nat} (ha : ramStart ≤ a) (v : Byte) {r : Nat} (hr : r < registerCount) :
    (m.write a v).register r = m.register r := by
  have hstart : registerCount < ramStart := by decide
  change (m.memory.write a v).read r = _
  rw [Memory.read_write, if_neg (by omega)]
  rfl

theorem read_setSp_data (m : Machine γ) (w : Word) {a : Nat} (ha : ramStart ≤ a) :
    (m.setSp w).memory.read a = m.memory.read a := by
  have hlow : stackLowCell < ramStart := by decide
  have hhigh : stackHighCell < ramStart := by decide
  exact read_setSp m w (by omega) (by omega)

theorem toNat_sp_setSp (m : Machine γ) {n : Nat} (hn : n ≤ ramEnd) : (m.setSp (BitVec.ofNat 16 n)).sp.toNat = n := by
  have hlast : ramEnd < 2 ^ 16 := by decide
  rw [sp_setSp, BitVec.toNat_ofNat, Nat.mod_eq_of_lt (by omega)]

def pushed (m : Machine γ) (v : Byte) : Machine γ :=
  (m.write m.sp.toNat v).setSp (BitVec.ofNat 16 (m.sp.toNat - 1))

theorem read_pushed (m : Machine γ) (v : Byte) {a : Nat} (ha : ramStart ≤ a) (hsp : m.sp.toNat ≤ ramEnd) :
    (m.pushed v).memory.read a = if m.sp.toNat = a then v else m.memory.read a := by
  have hsize : ramSize = ramEnd + 1 := rfl
  have hin : m.sp.toNat < ramSize := by omega
  rw [pushed, read_setSp_data _ _ ha]
  change (m.memory.write m.sp.toNat v).read a = _
  rw [Memory.read_write]
  simp only [hin, and_true]

theorem Holds.pushed (h : m.Holds s) (hroom : s.length < stackCapacity) (v : Byte) : (m.pushed v).Holds (v :: s) := by
  have hdepth := h.depth
  have hcapacity : stackCapacity + ramStart = ramEnd + 1 := rfl
  have hstart : 0 < ramStart := by decide
  refine h.cons hroom ?_ ?_ fun a ha => ?_
  · rw [Machine.pushed, toNat_sp_setSp _ (by omega)]
    omega
  · rw [m.read_pushed v (by omega) (by omega), if_pos rfl]
  · rw [m.read_pushed v (by omega) (by omega), if_neg (by omega)]

theorem Holds.obeys_push (h : m.Holds s) (v : Byte) :
    m.Obeys (Machine.push v >>= fun _ => pure .next) ((StackAction.push v).run s) := by
  have hdepth := h.depth
  have hroom := h.room
  have hcapacity : stackCapacity + ramStart = ramEnd + 1 := rfl
  have hrun := push_run v m
  rw [StackAction.run]
  by_cases hfull : s.length < stackCapacity
  · rw [if_pos hfull]
    rw [if_neg (by omega), if_neg (by omega)] at hrun
    refine ⟨m.pushed v, by rw [bind_run_ok hrun]; rfl, h.pushed hfull v, ((Frame.refl m).write _ _).setSp _,
      fun r hr => ?_⟩
    exact (register_setSp _ _ hr).trans (register_write m (by omega) v hr)
  · rw [if_neg hfull]
    rw [if_pos (by omega)] at hrun
    have hsp : m.sp.toNat = ramStart - 1 := by omega
    refine h.obeys_fail ?_
    rw [bind_run_error hrun, hsp]

theorem Holds.obeys_pop (h : m.Holds s) {d : Nat} (hd : d < registerCount) :
    m.Obeys (pop >>= fun b => thenNext fun m => m.write d b) ((StackAction.pop d).run s) := by
  have hdepth := h.depth
  have hrun := pop_run m
  cases s with
  | nil =>
    have hsp : m.sp.toNat = ramEnd := hdepth
    rw [if_pos hsp.ge, hsp] at hrun
    exact h.obeys_fail (bind_run_error hrun)
  | cons v s =>
    rw [List.length_cons] at hdepth
    have hsize : registerCount < ramSize := by decide
    have hstart : registerCount < ramStart := by decide
    rw [if_neg (by omega), h.top] at hrun
    refine ⟨(m.setSp (BitVec.ofNat 16 (m.sp.toNat + 1))).write d v, by rw [bind_run_ok hrun]; rfl, ?_,
      ((Frame.refl m).setSp _).write _ _, fun r hr => ?_⟩
    · refine h.tail ?_ fun a ha => ?_
      · rw [sp_write_register _ hd, toNat_sp_setSp _ (by omega)]
      · rw [read_write_register _ hd, if_neg (by omega), read_setSp_data _ _ ha]
    · refine (read_write_register _ hd v r).trans ?_
      change _ = if d = r then v else m.register r
      rw [← register_setSp m (BitVec.ofNat 16 (m.sp.toNat + 1)) hr]
      rfl

theorem read_withReturn (m : Machine γ) (index : Nat) {a : Nat} (ha : ramStart ≤ a) (hsp : m.sp.toNat ≤ ramEnd) :
    (m.withReturn index).memory.read a = if m.sp.toNat - 1 = a then highByte (BitVec.ofNat 16 index)
      else if m.sp.toNat = a then lowByte (BitVec.ofNat 16 index) else m.memory.read a := by
  have hsize : ramSize = ramEnd + 1 := rfl
  have hin : m.sp.toNat < ramSize := by omega
  have hin' : m.sp.toNat - 1 < ramSize := by omega
  rw [withReturn, read_setSp_data _ _ ha]
  change ((m.memory.write m.sp.toNat _).write (m.sp.toNat - 1) _).read a = _
  rw [Memory.read_write, Memory.read_write]
  simp only [hin, hin', and_true]

/-- A return address of sixteen bits is read back as it was. -/
theorem returnTarget_withReturn (hroom : ramStart < m.sp.toNat ∧ m.sp.toNat ≤ ramEnd) {index : Nat}
    (hindex : index < 2 ^ 16) :
    (m.withReturn index).returnTarget = index ∧ (m.withReturn index).sp.toNat + 2 = m.sp.toNat := by
  have hstart : 2 ≤ ramStart := by decide
  have hsp : (m.withReturn index).sp.toNat = m.sp.toNat - 2 := toNat_sp_setSp _ (by omega)
  refine ⟨?_, by omega⟩
  rw [returnTarget, hsp, m.read_withReturn index (by omega) hroom.2, m.read_withReturn index (by omega) hroom.2,
    if_neg (by omega), if_pos (by omega), if_pos (by omega), wordOf_bytes, BitVec.toNat_ofNat,
    Nat.mod_eq_of_lt hindex]

/-- A return address is its low byte and then its high byte on the stack. -/
theorem Holds.withReturn (h : m.Holds s) (hroom : s.length + 2 ≤ stackCapacity) (index : Nat) :
    (m.withReturn index).Holds (highByte (BitVec.ofNat 16 index) :: lowByte (BitVec.ofNat 16 index) :: s) := by
  have hdepth := h.depth
  have hcapacity : stackCapacity + ramStart = ramEnd + 1 := rfl
  have hstart : 0 < ramStart := by decide
  have hsp : (m.pushed (lowByte (BitVec.ofNat 16 index))).sp.toNat = m.sp.toNat - 1 := toNat_sp_setSp _ (by omega)
  refine (h.pushed (by omega) (lowByte (BitVec.ofNat 16 index))).cons hroom ?_ ?_ fun a ha => ?_
  · rw [hsp, Machine.withReturn, toNat_sp_setSp _ (by omega)]
    omega
  · rw [hsp, m.read_withReturn index (by omega) (by omega), if_pos rfl]
  · rw [hsp] at ha
    rw [m.read_withReturn index (by omega) (by omega), m.read_pushed _ (by omega) (by omega), if_neg (by omega)]

theorem Holds.obeys_call (h : m.Holds s) (target : Int) (width : Nat) :
    m.Obeys (absolute target >>= fun target => call target width)
      ((StackAction.call target (m.pc + width)).run s) := by
  have hdepth := h.depth
  have hroom := h.room
  have hcapacity : stackCapacity + ramStart = ramEnd + 1 := rfl
  rw [StackAction.run]
  by_cases htarget : 0 ≤ target ∧ target < flashSize
  · rw [if_pos htarget]
    by_cases hfull : s.length + 2 ≤ stackCapacity
    · rw [if_pos hfull]
      refine ⟨m.withReturn (m.pc + width), by rw [bind_run_ok (absolute_ok htarget m), call_run (by omega)]; rfl,
        h.withReturn hfull _, (((Frame.refl m).write _ _).write _ _).setSp _, fun r hr => ?_⟩
      refine (register_setSp _ _ hr).trans ?_
      rw [register_write _ (by omega) _ hr, register_write _ (by omega) _ hr]
      rfl
    · rw [if_neg hfull]
      have hrun := pushReturn_error (m := m) (.inl (by omega)) (m.pc + width)
      rw [if_pos (by omega), Nat.min_eq_right (by omega)] at hrun
      refine h.obeys_fail ?_
      rw [bind_run_ok (absolute_ok htarget m)]
      unfold call
      rw [bind_run_ok (get_run m), bind_run_error hrun]
  · rw [if_neg htarget]
    exact h.obeys_fail (bind_run_error (absolute_error htarget m))

theorem Holds.obeys_ret (h : m.Holds s) (enable : Bool) :
    m.Obeys (get >>= fun m => if m.sp.toNat = ramEnd then pure .stop else popReturn >>= fun target =>
      (if enable then modify fun m => m.setFlag .I true else pure ()) >>= fun _ => pure (.jump target))
      (StackAction.ret.run s) := by
  have hdepth := h.depth
  have hrun := popReturn_run m
  have hstop (x : Exec γ Control) (hx : m.sp.toNat = ramEnd) :
      ((get >>= fun m => if m.sp.toNat = ramEnd then pure .stop else x) : Exec γ Control) m = .ok .stop m := by
    rw [bind_run_ok (get_run m), if_pos hx]
    rfl
  have hgo (x : Exec γ Control) (hx : m.sp.toNat ≠ ramEnd) :
      ((get >>= fun m => if m.sp.toNat = ramEnd then pure .stop else x) : Exec γ Control) m = x m := by
    rw [bind_run_ok (get_run m), if_neg hx]
  match s with
  | [] => exact ⟨m, hstop _ hdepth, h, .refl m, fun _ _ => rfl⟩
  | [v] =>
    rw [List.length_singleton] at hdepth
    rw [if_pos (by omega), Nat.max_eq_right (by omega)] at hrun
    exact h.obeys_fail ((hgo _ (by omega)).trans (bind_run_error hrun))
  | high :: low :: s =>
    rw [List.length_cons, List.length_cons] at hdepth
    have htarget : m.returnTarget = (wordOf low high).toNat := by
      rw [returnTarget, h.top, h.spells 1 low rfl]
    rw [if_neg (by omega), htarget] at hrun
    rw [StackAction.run]
    by_cases hflash : (wordOf low high).toNat < flashSize
    · rw [if_pos hflash]
      rw [if_neg (Nat.not_le.2 hflash)] at hrun
      have hone : (m.setSp (BitVec.ofNat 16 (m.sp.toNat + 1))).Holds (low :: s) :=
        h.tail (toNat_sp_setSp m (by omega)) fun a ha => read_setSp_data m _ ha
      have htwo : (m.setSp (BitVec.ofNat 16 (m.sp.toNat + 2))).Holds s := by
        refine hone.tail ?_ fun a ha => ?_
        · rw [toNat_sp_setSp m (by omega), toNat_sp_setSp m (by omega)]
        · rw [read_setSp_data m _ ha, read_setSp_data m _ ha]
      have hframe := (Frame.refl m).setSp (BitVec.ofNat 16 (m.sp.toNat + 2))
      cases enable with
      | false =>
        refine ⟨_, (hgo _ (by omega)).trans ?_, htwo, hframe, fun r hr => register_setSp m _ hr⟩
        rw [bind_run_ok hrun]
        rfl
      | true =>
        have hregister : registerCount < statusCell := by decide
        have hdata : statusCell < ramStart := by decide
        refine ⟨_, (hgo _ (by omega)).trans ?_,
          htwo.congr (sp_setFlag _ .I true) fun a ha => read_setFlag _ .I true (by omega), hframe.setFlag .I true,
          fun r hr => (read_setFlag _ .I true (by omega)).trans (register_setSp m _ hr)⟩
        rw [bind_run_ok hrun]
        rfl
    · rw [if_neg hflash]
      rw [if_pos (Nat.not_lt.1 hflash)] at hrun
      exact h.obeys_fail ((hgo _ (by omega)).trans (bind_run_error hrun))

end Machine

/-! ## Instructions -/

/-- An instruction that pushes, pops, calls or returns, with operands that it admits; no call of a function of the
simulator. -/
structure Instruction.OnStack (i : Instruction) : Prop where
  mnemonic : i.mnemonic ∈ [.PUSH, .POP, .RCALL, .CALL, .ICALL, .RET, .RETI]
  admitted : Admitted i.mnemonic i.operands
  calls : i.callsFunc = false

namespace Machine

def action? (m : Machine γ) (i : Instruction) : Option StackAction :=
  match i.mnemonic, i.operands with
  | .PUSH, [.reg r] => some (.push (m.register r))
  | .POP, [.reg r] => some (.pop r)
  | .RCALL, [.imm k] => some (.call (m.relativeTarget k) (m.pc + i.width))
  | .CALL, [.imm k] => some (.call k (m.pc + i.width))
  | .ICALL, _ => some (.call (m.pointer .Z).toNat (m.pc + i.width))
  | .RET, _ | .RETI, _ => some .ret
  | _, _ => none

theorem action?_ret {i : Instruction} (hi : i.mnemonic ∈ [.RET, .RETI]) (m : Machine γ) : m.action? i = some .ret := by
  obtain ⟨mn, ops, o, l⟩ := i
  simp only [List.mem_cons, List.not_mem_nil, or_false] at hi
  obtain rfl | rfl := hi <;> rfl

variable [Console γ] {m : Machine γ} {s : List Byte} {i : Instruction}

/-- Instructions on the stack have an action, and do it. -/
theorem exists_obeys (hi : i.OnStack) (m : Machine γ) :
    ∃ a, m.action? i = some a ∧ ∀ s, m.Holds s → m.Obeys (execute i) (a.run s) := by
  obtain ⟨mn, ops, o, l⟩ := i
  obtain ⟨hmn, ha, hcalls⟩ := hi
  dsimp only at hmn ha
  simp only [List.mem_cons, List.not_mem_nil, or_false] at hmn
  rcases hmn with rfl | rfl | rfl | rfl | rfl | rfl | rfl
  · obtain ⟨op, rfl, hop⟩ := exists_of_admits_one rfl ha
    obtain ⟨r, rfl⟩ := hop.registerUpTo 31 rfl
    exact ⟨_, rfl, fun s h => h.obeys_push (m.register r)⟩
  · obtain ⟨op, rfl, hop⟩ := exists_of_admits_one rfl ha
    obtain ⟨r, rfl⟩ := hop.registerUpTo 31 rfl
    exact ⟨_, rfl, fun s h => h.obeys_pop r.isLt⟩
  · obtain ⟨op, rfl, hop⟩ := exists_of_admits_one rfl ha
    obtain ⟨f, rfl⟩ | ⟨k, rfl, -⟩ := hop.intOrFunc
    · cases hcalls
    exact ⟨_, rfl, fun s h => h.obeys_call (m.relativeTarget k) 1⟩
  · obtain ⟨op, rfl, hop⟩ := exists_of_admits_one rfl ha
    obtain ⟨f, rfl⟩ | ⟨k, rfl, -⟩ := hop.intOrFunc
    · cases hcalls
    exact ⟨_, rfl, fun s h => h.obeys_call k 2⟩
  · have hrun : (execute ⟨.ICALL, ops, o, l⟩ : Exec γ Control) m =
        ((absolute (m.pointer .Z).toNat >>= fun target => call target 1) : Exec γ Control) m := bind_run_ok (get_run m)
    exact ⟨_, rfl, fun s h => (h.obeys_call (m.pointer .Z).toNat 1).congr hrun⟩
  · exact ⟨_, rfl, fun s h => h.obeys_ret false⟩
  · exact ⟨_, rfl, fun s h => h.obeys_ret true⟩

end Machine

end Avr

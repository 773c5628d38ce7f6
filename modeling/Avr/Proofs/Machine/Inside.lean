import Avr.Proofs.Machine.Operation

/-!
# Operations inside flash

* `Machine.Inside` : the next instruction is in flash, all of it: no sum of addresses leaves its type then;
* `ioCell?_eq`, `place?_distance`, `address?_pointer` : the addresses that operations mean;
* `run_jump`, `run_skip`, `run_branch` : operations that go somewhere, as the parts of instructions do it;
* `run_load`, `run_store`, `run_exchange`, `run_input`, `run_output` : data memory;
* `run_push`, `run_pop`, `run_call`, `run_ret`, `run_print` : the stack.
-/

namespace Avr

variable {γ : Type}

namespace Machine

/-- The next instruction is in flash, all of it. -/
def Inside (m : Machine γ) : Prop := m.pc + 1 + m.nextWidth ≤ flashSize

/-! ## Places -/

theorem ioAddressOf_natCast {n : Nat} (h : n ≤ 63) : ioAddressOf n = n + ioOffset := by
  unfold ioAddressOf addressOf ioOffset
  omega

theorem ioCell?_eq (a : Fin 64) : ioCell? a = some (ioAddressOf a.val) := by
  have haddress := ioAddressOf_natCast (Nat.lt_succ_iff.1 a.isLt)
  have hlt : a.val + ioOffset < 2 ^ 64 := by
    unfold ioOffset
    omega
  rw [haddress]
  exact unsigned?_eq (Int.natCast_add _ _).symm hlt

theorem inMemory_ioAddressOf (a : Fin 64) : inMemory (ioAddressOf a.val) = true := by
  have hlast : ramSize = 2304 := rfl
  rw [inMemory, decide_eq_true_iff, ioAddressOf_natCast (Nat.lt_succ_iff.1 a.isLt)]
  unfold ioOffset
  omega

theorem addressOf_natCast (a : Fin 65536) : addressOf a.val = a.val := by
  unfold addressOf
  omega

/-- Inside flash the distances of jumps do not wrap around. -/
theorem place?_distance {m : Machine γ} (hm : m.Inside) {k : Int} (hk : -2048 ≤ k ∧ k ≤ 2047) :
    (Target.distance k hk).place? m = some (m.relativeTarget k) := by
  have hpc : m.pc + 1 ≤ 16384 := Nat.le_trans (Nat.le_add_right _ _) hm
  have htarget : m.relativeTarget k = m.pc + 1 + k := Int.bmod_eq_of_le (by omega) (by omega)
  rw [htarget, Target.place?, signed?_eq (by omega), Option.bind_some, signed?_eq (by omega)]

theorem run_jump (k : Int) (m : Machine γ) :
    ((absolute k >>= fun target => pure (.jump target)) : Exec γ Control) m = m.jumpTo k := by
  unfold jumpTo
  by_cases hk : 0 ≤ k ∧ k < flashSize
  · rw [if_pos hk, bind_run_ok (absolute_ok hk m)]
    rfl
  · rw [if_neg hk, bind_run_error (absolute_error hk m)]

theorem run_skip {m : Machine γ} (hm : m.Inside) (taken : Bool) :
    (if taken then m.skipped? else some (.ok .next m)) = some ((skip taken : Exec γ Control) m) := by
  cases taken with
  | false => rfl
  | true =>
    have hflash : m.pc + 1 + m.nextWidth ≤ 16384 := hm
    have hnext : unsigned? (m.pc + 1 : Int) = some (m.pc + 1) := unsigned?_eq (by omega) (by omega)
    have htarget : unsigned? ((m.pc + 1 : Nat) + m.nextWidth : Int) = some (m.pc + 1 + m.nextWidth) :=
      unsigned?_eq (by omega) (by omega)
    rw [if_pos rfl]
    unfold skipped?
    rw [Option.bind_eq_bind, hnext, Option.bind_some, htarget, Option.bind_some]
    rfl

theorem run_branch {m : Machine γ} (hm : m.Inside) (b : StatusBit) (v : Bool) {k : Int} (hk : -2048 ≤ k ∧ k ≤ 2047) :
    (if m.flag b = v then ((Target.distance k hk).place? m).map (m.countTaken 1).jumpTo else some (.ok .next m)) =
      some ((branchOn b v k : Exec γ Control) m) := by
  have hrun : (branchOn b v k : Exec γ Control) m = (branch (m.flag b == v) k : Exec γ Control) m := rfl
  rw [hrun]
  by_cases hflag : m.flag b = v
  · rw [if_pos hflag, hflag, beq_self_eq_true, place?_distance hm, Option.map_some, branch_run]
    rfl
  · rw [if_neg hflag, beq_false_of_ne hflag]
    rfl

/-! ## Data memory -/

theorem run_load (a : Nat) (g : Byte → Machine γ → Machine γ) (m : Machine γ) :
    ((load a >>= fun b => thenNext (g b)) : Exec γ Control) m = m.withCell a (g (m.memory.read a) m) := by
  unfold withCell
  by_cases ha : inMemory a = true
  · rw [if_pos ha, bind_run_ok (load_ok ha m)]
    rfl
  · rw [if_neg ha, bind_run_error (load_error ha m)]

theorem run_store (a : Nat) (v : Byte) (g : Machine γ → Machine γ) (m : Machine γ) :
    ((store a v >>= fun _ => thenNext g) : Exec γ Control) m = m.withCell a (g (m.write a v)) := by
  unfold withCell
  by_cases ha : inMemory a = true
  · rw [if_pos ha, bind_run_ok (store_ok ha v m)]
    rfl
  · rw [if_neg ha, bind_run_error (store_error ha v m)]

theorem address?_pointer (m : Machine γ) (p : Pointer) {mode : PointerMode} (h : mode.displacement ≤ 63) :
    (Access.pointer p mode h).address? m = some (m.address p mode).1 := by
  cases mode with
  | disp q =>
    have hlt := (m.pointer p).isLt
    have hq : q ≤ 63 := h
    have hsum : (m.pointer p).toNat + q < 2 ^ 64 := by omega
    exact unsigned?_eq (Int.natCast_add _ _).symm hsum
  | _ => rfl

theorem run_exchange [Console γ] (r : Fin 32) (m : Machine γ) : (Operation.exchange r).run m =
    some (((load (m.pointer .Z).toNat >>= fun old => get >>= fun m' => store (m.pointer .Z).toNat (m'.register r) >>=
      fun _ => thenNext fun m' => m'.write r old) : Exec γ Control) m) := by
  change some (m.withCell (m.pointer .Z).toNat _) = _
  unfold withCell
  by_cases ha : inMemory (m.pointer .Z).toNat = true
  · rw [if_pos ha, bind_run_ok (load_ok ha m), bind_run_ok (get_run m), bind_run_ok (store_ok ha _ m)]
    rfl
  · rw [if_neg ha, bind_run_error (load_error ha m)]

/-! ## Input and output -/

theorem run_skip_ioBit [Console γ] {m : Machine γ} (hm : m.Inside) (a : Fin 64) (n : Fin 8) (v : Bool) :
    (Operation.skip (.ioBit a n v)).run m =
      some (((load (ioAddressOf a.val) >>= fun b => skip (b.getLsbD n == v)) : Exec γ Control) m) := by
  rw [Operation.run, Test.holds?, ioCell?_eq, Option.map_some, Option.bind_some, run_skip hm,
    bind_run_ok (load_ok (inMemory_ioAddressOf a) m)]

theorem run_assignIoBit [Console γ] (m : Machine γ) (a : Fin 64) (n : Fin 8) (v : Bool) :
    (Operation.assignIoBit a n v).run m = some (((load (ioAddressOf a.val) >>= fun b =>
      store (ioAddressOf a.val) (Machine.assignBit b n v) >>= fun _ => pure .next) : Exec γ Control) m) := by
  have ha := inMemory_ioAddressOf a
  rw [Operation.run, ioCell?_eq, Option.map_some, bind_run_ok (load_ok ha m), bind_run_ok (store_ok ha _ m)]
  rfl

theorem run_input [Console γ] (m : Machine γ) (d : Fin 32) (a : Fin 64) :
    (Operation.input d a).run m =
      some (((load (ioAddressOf a.val) >>= fun b => thenNext fun m => m.write d b) : Exec γ Control) m) := by
  rw [Operation.run, ioCell?_eq, Option.map_some, bind_run_ok (load_ok (inMemory_ioAddressOf a) m)]
  rfl

theorem run_output [Console γ] (m : Machine γ) (a : Fin 64) (r : Fin 32) :
    (Operation.output a r).run m =
      some (((store (ioAddressOf a.val) (m.register r) >>= fun _ => pure .next) : Exec γ Control) m) := by
  rw [Operation.run, ioCell?_eq, Option.map_some, bind_run_ok (store_ok (inMemory_ioAddressOf a) _ m)]
  rfl

/-! ## The stack -/

theorem run_push (v : Byte) (m : Machine γ) :
    m.pushed? v = some (((push v >>= fun _ => pure .next) : Exec γ Control) m) := by
  have hlt := m.sp.isLt
  have hrun := push_run v m
  unfold pushed?
  dsimp only
  by_cases hlow : m.sp.toNat < ramStart
  · rw [if_pos hlow] at hrun ⊢
    rw [bind_run_error hrun]
    rfl
  · rw [if_neg hlow] at hrun ⊢
    by_cases hhigh : ramEnd < m.sp.toNat
    · rw [if_pos hhigh] at hrun ⊢
      rw [bind_run_error hrun]
      rfl
    · have hpos : 0 < ramStart := by decide
      have hbelow : unsigned? (m.sp.toNat - 1 : Int) = some (m.sp.toNat - 1) := unsigned?_eq (by omega) (by omega)
      rw [if_neg hhigh] at hrun ⊢
      rw [bind_run_ok hrun, Option.bind_eq_bind, hbelow, Option.bind_some]
      rfl

theorem run_pop (d : Fin 32) (m : Machine γ) :
    m.popped? d = some (((pop >>= fun b => thenNext fun m => m.write d b) : Exec γ Control) m) := by
  have hlt := m.sp.isLt
  have hrun := pop_run m
  unfold popped?
  dsimp only
  by_cases hempty : ramEnd ≤ m.sp.toNat
  · rw [if_pos hempty] at hrun ⊢
    rw [bind_run_error hrun]
    rfl
  · have htop : unsigned? (m.sp.toNat + 1 : Int) = some (m.sp.toNat + 1) := unsigned?_eq (by omega) (by omega)
    rw [if_neg hempty] at hrun ⊢
    rw [bind_run_ok hrun, Option.bind_eq_bind, htop, Option.bind_some]
    rfl

theorem run_call {m : Machine γ} (hm : m.Inside) (k : Int) (width : Fin 3) :
    m.called? k width = some (((absolute k >>= fun target => call target width) : Exec γ Control) m) := by
  have hlt := m.sp.isLt
  have hpc : m.pc + 1 ≤ 16384 := Nat.le_trans (Nat.le_add_right _ _) hm
  have hindex : unsigned? (m.pc + width.val : Int) = some (m.pc + width) := unsigned?_eq (by omega) (by omega)
  unfold called?
  by_cases hk : 0 ≤ k ∧ k < flashSize
  · rw [if_neg (not_not_intro hk), Option.bind_eq_bind, hindex, Option.bind_some, bind_run_ok (absolute_ok hk m)]
    unfold call
    rw [bind_run_ok (get_run m)]
    dsimp only
    by_cases hroom : ramStart < m.sp.toNat ∧ m.sp.toNat ≤ ramEnd
    · have hsecond : unsigned? (m.sp.toNat - 1 : Int) = some (m.sp.toNat - 1) := unsigned?_eq (by omega) (by omega)
      have hbelow : unsigned? (m.sp.toNat - 2 : Int) = some (m.sp.toNat - 2) := by
        have hpos : 0 < ramStart := by decide
        exact unsigned?_eq (by omega) (by omega)
      rw [if_neg (by omega), if_neg (by omega), hsecond, bind_run_ok (pushReturn_run hroom _), Option.bind_some,
        hbelow, Option.bind_some]
      rfl
    · have hrun := pushReturn_error (m := m) (by omega) (m.pc + width)
      by_cases hlow : m.sp.toNat < ramStart + 1
      · rw [if_pos hlow] at hrun ⊢
        rw [bind_run_error hrun]
        rfl
      · rw [if_neg hlow] at hrun ⊢
        rw [if_pos (by omega), bind_run_error hrun]
        rfl
  · rw [if_pos hk, bind_run_error (absolute_error hk m)]
    rfl

theorem run_ret (enable : Bool) (m : Machine γ) : m.returned? enable =
    some (((get >>= fun m => if m.sp.toNat = ramEnd then pure .stop else popReturn >>= fun target =>
      (if enable then modify fun m => m.setFlag .I true else pure ()) >>= fun _ => pure (.jump target)) :
        Exec γ Control) m) := by
  have hlt := m.sp.isLt
  have hrun := popReturn_run m
  have hsecond : unsigned? (m.sp.toNat + 2 : Int) = some (m.sp.toNat + 2) := unsigned?_eq (by omega) (by omega)
  have hfirst : unsigned? (m.sp.toNat + 1 : Int) = some (m.sp.toNat + 1) := unsigned?_eq (by omega) (by omega)
  rw [bind_run_ok (get_run m)]
  unfold returned?
  dsimp only
  by_cases hempty : m.sp.toNat = ramEnd
  · rw [if_pos hempty, if_pos hempty]
    rfl
  · rw [if_neg hempty, if_neg hempty, Option.bind_eq_bind, hsecond, Option.bind_some]
    by_cases hone : ramEnd < m.sp.toNat + 2
    · rw [if_pos hone] at hrun ⊢
      rw [bind_run_error hrun]
      rfl
    · rw [if_neg hone] at hrun ⊢
      rw [hfirst, Option.bind_some]
      change (if flashSize ≤ m.returnTarget then _ else _) = _
      by_cases htarget : flashSize ≤ m.returnTarget
      · rw [if_pos htarget] at hrun ⊢
        rw [bind_run_error hrun]
        rfl
      · rw [if_neg htarget] at hrun ⊢
        rw [bind_run_ok hrun]
        cases enable <;> rfl

theorem run_print [Console γ] (m : Machine γ) :
    m.printed? = some (((print >>= fun _ => pure .next) : Exec γ Control) m) := by
  have hlt := m.sp.isLt
  have hrun := print_run m
  have hfirst : unsigned? (m.sp.toNat + 1 : Int) = some (m.sp.toNat + 1) := unsigned?_eq (by omega) (by omega)
  have hsecond : unsigned? (m.sp.toNat + 2 : Int) = some (m.sp.toNat + 2) := unsigned?_eq (by omega) (by omega)
  unfold printed?
  dsimp only
  rw [Option.bind_eq_bind, hfirst, Option.bind_some]
  by_cases hone : ramEnd < m.sp.toNat + 1
  · rw [if_pos hone] at hrun ⊢
    rw [bind_run_error hrun]
    rfl
  · rw [if_neg hone] at hrun ⊢
    rw [hsecond, Option.bind_some]
    by_cases htwo : ramEnd < m.sp.toNat + 2
    · rw [if_pos htwo] at hrun ⊢
      rw [bind_run_error hrun]
      rfl
    · rw [if_neg htwo] at hrun ⊢
      have htarget : (wordOf (m.memory.read (m.sp.toNat + 2)) (m.memory.read (m.sp.toNat + 1))).toNat =
          m.returnTarget := rfl
      rw [htarget]
      cases hstring : m.memory.string? m.returnTarget with
      | none =>
        rw [hstring] at hrun
        rw [bind_run_error hrun]
        rfl
      | some text =>
        rw [hstring] at hrun
        rw [bind_run_ok hrun]
        rfl

end Machine

end Avr

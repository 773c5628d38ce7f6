import Avr.Proofs.Alu.Flags
import Avr.Proofs.Machine.Counters
import Avr.Proofs.Token.Written

/-!
# What parts of instructions write

* `Alu.Result.Quiet` : results that leave the bits for interrupts and transfer alone;
* `Machine.Confined` : of the cells behind the registers only those in a set may have changed, and these two bits only
  with the status register in the set; `Confined.write`, `Confined.setFlag`, … : what keeps a machine confined;
* `Confines` : a part of an instruction keeps the machine confined if it succeeds; `Confines.bind`, `Confines.get`,
  `Confines.thenNext` : the rules for parts in a row;
* `Confines.combine`, `Confines.compare`, `Confines.print`, … : families of instructions.
-/

namespace Avr

variable {γ α β : Type}

/-! ## Results -/

/-- A result that leaves the bits for interrupts and transfer alone. -/
def Alu.Result.Quiet (r : Alu.Result α) : Prop := r.mask.test .I = false ∧ r.mask.test .T = false

namespace Alu

variable {r : Result α}

theorem quiet_of_mask {mask : Status} (h : r.mask = mask) (hI : mask.test .I = false) (hT : mask.test .T = false) :
    r.Quiet := by
  subst h
  exact ⟨hI, hT⟩

theorem quiet_logic (h : r.mask = logicMask) : r.Quiet := quiet_of_mask h (by decide) (by decide)

theorem quiet_shift (h : r.mask = shiftMask) : r.Quiet := quiet_of_mask h (by decide) (by decide)

theorem quiet_arithmetic (h : r.mask = arithmeticMask) : r.Quiet := quiet_of_mask h (by decide) (by decide)

theorem quiet_product (h : r.mask = productMask) : r.Quiet := quiet_of_mask h (by decide) (by decide)

end Alu

namespace Machine

/-! ## Confined changes -/

/-- Of the cells behind the registers only those of `W` may have changed. The status register apart: of that the bits
for interrupts and transfer are kept unless it is in `W`. -/
structure Confined (W : Nat → Prop) (m m' : Machine γ) : Prop where
  cells : ∀ a, registerCount ≤ a → a ≠ statusCell → ¬ W a → m'.memory.read a = m.memory.read a
  bits : ¬ W statusCell → ∀ b, b = .I ∨ b = .T → m'.flag b = m.flag b

namespace Confined

variable {W : Nat → Prop} {m m' : Machine γ}

theorem refl (W : Nat → Prop) (m : Machine γ) : m.Confined W m := ⟨fun _ _ _ _ => rfl, fun _ _ _ => rfl⟩

theorem of_memory {n : Machine γ} (h : m.Confined W m') (hmemory : n.memory = m'.memory) : m.Confined W n := by
  constructor
  · intro a ha hstatus hW
    rw [hmemory]
    exact h.cells a ha hstatus hW
  · intro hW b hb
    rw [Machine.flag, Machine.sreg, hmemory]
    exact h.bits hW b hb

theorem read_write_other {a b : Nat} (hab : a ≠ b) (m : Machine γ) (v : Byte) :
    (m.write a v).memory.read b = m.memory.read b := by
  change (m.memory.write a v).read b = _
  rw [Memory.read_write, if_neg fun h => hab h.1]

theorem flag_write_other {a : Nat} (ha : a ≠ statusCell) (m : Machine γ) (v : Byte) (b : StatusBit) :
    (m.write a v).flag b = m.flag b := by
  rw [Machine.flag, Machine.sreg, read_write_other ha]
  rfl

theorem write_register {d : Nat} (h : m.Confined W m') (hd : d < registerCount) (v : Byte) :
    m.Confined W (m'.write d v) := by
  have hstatus : registerCount < statusCell := by decide
  constructor
  · intro a ha hne hW
    rw [read_write_other (by omega)]
    exact h.cells a ha hne hW
  · intro hW b hb
    rw [flag_write_other (by omega)]
    exact h.bits hW b hb

theorem writePair_registers {d : Nat} (h : m.Confined W m') (hd : d + 1 < registerCount) (w : Word) :
    m.Confined W (m'.writePair d w) :=
  (h.write_register (by omega) (lowByte w)).write_register hd (highByte w)

theorem write {a : Nat} (h : m.Confined W m') (ha : W a) (v : Byte) : m.Confined W (m'.write a v) := by
  constructor
  · intro b hb hne hW
    rw [read_write_other]
    · exact h.cells b hb hne hW
    · rintro rfl
      exact hW ha
  · intro hW b hb
    rw [flag_write_other]
    · exact h.bits hW b hb
    · rintro rfl
      exact hW ha

theorem setSp (h : m.Confined W m') (hlow : W stackLowCell) (hhigh : W stackHighCell) (w : Word) :
    m.Confined W (m'.setSp w) :=
  (h.write hlow (lowByte w)).write hhigh (highByte w)

/-- The status register with its last two bits kept. -/
theorem setSreg (h : m.Confined W m') {s : Status} (hs : ∀ b, b = .I ∨ b = .T → s.test b = m'.flag b) :
    m.Confined W (m'.setSreg s) := by
  constructor
  · intro a ha hne hW
    rw [Machine.setSreg, read_write_other hne.symm]
    exact h.cells a ha hne hW
  · intro hW b hb
    have hsize : statusCell < ramSize := by decide
    have hread : (m'.setSreg s).sreg = s := by
      change (m'.memory.write statusCell s).read statusCell = s
      rw [Memory.read_write, if_pos ⟨rfl, hsize⟩]
    rw [Machine.flag, hread, hs b hb]
    exact h.bits hW b hb

theorem applyFlags {r : Alu.Result α} (h : m.Confined W m') (hr : r.Quiet) : m.Confined W (m'.applyFlags r) := by
  apply h.setSreg
  intro b hb
  rw [Alu.Result.test_apply]
  rcases hb with rfl | rfl
  · rw [hr.1]
    rfl
  · rw [hr.2]
    rfl

/-- A bit of the status register may be written if it is none of the last two, or if that is allowed. -/
theorem setFlag {b : StatusBit} (h : m.Confined W m') (hb : b ≠ .I ∧ b ≠ .T ∨ W statusCell) (v : Bool) :
    m.Confined W (m'.setFlag b v) := by
  rcases hb with ⟨hI, hT⟩ | hW
  · apply h.setSreg
    rintro b' (rfl | rfl)
    · rw [Status.test_assign, if_neg hI.symm]
      rfl
    · rw [Status.test_assign, if_neg hT.symm]
      rfl
  · exact h.write hW _

theorem updatePointer (h : m.Confined W m') (p : Pointer) (update : Option Word) :
    m.Confined W (m'.updatePointer p update) := by
  cases update with
  | none => exact h
  | some w =>
    have hp : p.lowRegister + 1 < registerCount := by cases p <;> decide
    exact h.writePair_registers hp w

theorem afterPrint (h : m.Confined W m') (length : Nat) : m.Confined W (m'.afterPrint length) :=
  afterPrint_induction (fun _ _ hr v hn => hn.write_register hr v) h length

theorem countTaken (h : m.Confined W m') (cycles : Nat) : m.Confined W (m'.countTaken cycles) := h.of_memory rfl

end Confined

/-! ## Parts of instructions -/

/-- A part of an instruction that succeeds changes only what it may. -/
def Confines (W : Nat → Prop) (m : Machine γ) (x : Exec γ α) : Prop := ∀ a m', x m = .ok a m' → m.Confined W m'

section Rules

variable {W : Nat → Prop} {m : Machine γ}

theorem bind_ok {x : Exec γ α} {f : α → Exec γ β} {m' : Machine γ} {b : β} (h : (x >>= f) m = .ok b m') :
    ∃ a n, x m = .ok a n ∧ f a n = .ok b m' := by
  cases hx : x m with
  | ok a n =>
    rw [bind_run_ok hx] at h
    exact ⟨a, n, rfl, h⟩
  | error e n =>
    rw [bind_run_error hx] at h
    cases h

theorem Passive.eq_of_ok {x : Exec γ α} (hx : Passive x) {n : Machine γ} {a : α} (h : x m = .ok a n) : n = m := by
  have hreached := hx m
  rw [h] at hreached
  exact hreached

namespace Confines

theorem congr {x y : Exec γ α} (hxy : y m = x m) (hx : Confines W m x) : Confines W m y := by
  intro a m' h
  rw [hxy] at h
  exact hx a m' h

theorem passive {x : Exec γ α} (hx : Passive x) : Confines W m x := by
  intro a m' h
  rw [hx.eq_of_ok h]
  exact .refl W m

theorem bind {x : Exec γ α} {f : α → Exec γ β} (hx : Passive x) (hf : ∀ a, x m = .ok a m → Confines W m (f a)) :
    Confines W m (x >>= f) := by
  intro b m' hrun
  obtain ⟨a, n, ha, hrest⟩ := bind_ok hrun
  obtain rfl := hx.eq_of_ok ha
  exact hf a ha b m' hrest

theorem get {f : Machine γ → Exec γ β} (h : Confines W m (f m)) : Confines W m (get >>= f) := h

theorem pure (a : α) : Confines W m (Pure.pure a : Exec γ α) := .passive (passive_pure a)

theorem thenNext {f : Machine γ → Machine γ} (h : m.Confined W (f m)) : Confines W m (thenNext f) := by
  intro c m' hrun
  cases hrun
  exact h

theorem storeNext {a : Nat} {v : Byte} {f : Machine γ → Machine γ} (ha : W a)
    (hf : ∀ n, m.Confined W n → m.Confined W (f n)) :
    Confines W m (Machine.store a v >>= fun _ => Machine.thenNext f) := by
  intro c m' h
  obtain ⟨u, n, hstore, h⟩ := bind_ok h
  cases h
  rw [store_run] at hstore
  split at hstore
  · cases hstore
    exact hf _ ((Confined.refl W m).write ha v)
  · cases hstore

/-! ### Operands -/

variable {i : Instruction}

theorem reg {k : Nat} {f : Nat → Exec γ β} (hi : ∀ op ∈ i.operands, op.Writable)
    (hf : ∀ r < registerCount, Confines W m (f r)) : Confines W m (i.reg k >>= f) := by
  apply bind (passive_reg i k)
  intro r hr
  unfold Instruction.reg at hr
  cases hop : i.operands[k]? with
  | none =>
    rw [hop] at hr
    cases hr
  | some op =>
    rw [hop] at hr
    cases op with
    | reg r' =>
      cases hr
      exact hf r (hi _ (List.mem_of_getElem? hop))
    | _ => cases hr

theorem imm {k : Nat} {f : Int → Exec γ β} (hf : ∀ v, Confines W m (f v)) : Confines W m (i.imm k >>= f) :=
  .bind (passive_imm i k) fun v _ => hf v

theorem bit {k : Nat} {f : Nat → Exec γ β} (hf : ∀ n, Confines W m (f n)) : Confines W m (i.bit k >>= f) :=
  .bind (passive_bit i k) fun n _ => hf n

theorem load {a : Nat} {f : Byte → Exec γ β} (hf : ∀ b, Confines W m (f b)) : Confines W m (Machine.load a >>= f) :=
  .bind (passive_load a) fun b _ => hf b

/-! ### Families of instructions -/

theorem onRegisters {f : Nat → Nat → Machine γ → Machine γ} (hi : ∀ op ∈ i.operands, op.Writable)
    (hf : ∀ rd < registerCount, ∀ rr, m.Confined W (f rd rr m)) : Confines W m (onRegisters i f) :=
  .reg hi fun rd hrd => .reg hi fun rr _ => .thenNext (hf rd hrd rr)

theorem onConstant {f : Nat → Byte → Machine γ → Machine γ} (hi : ∀ op ∈ i.operands, op.Writable)
    (hf : ∀ rd < registerCount, ∀ k, m.Confined W (f rd k m)) : Confines W m (onConstant i f) :=
  .reg hi fun rd hrd => .imm fun _ => .thenNext (hf rd hrd _)

theorem onRegister {f : Nat → Machine γ → Machine γ} (hi : ∀ op ∈ i.operands, op.Writable)
    (hf : ∀ rd < registerCount, m.Confined W (f rd m)) : Confines W m (onRegister i f) :=
  .reg hi fun rd hrd => .thenNext (hf rd hrd)

theorem combine {f : Byte → Byte → Bool → Bool → Alu.Result Byte} (hi : ∀ op ∈ i.operands, op.Writable)
    (hf : ∀ d r c z, (f d r c z).Quiet) : Confines W m (combine i f) :=
  .onRegisters hi fun _ hrd _ => ((Confined.refl W m).write_register hrd _).applyFlags (hf _ _ _ _)

theorem compare {f : Byte → Byte → Bool → Bool → Alu.Result Byte} (hi : ∀ op ∈ i.operands, op.Writable)
    (hf : ∀ d r c z, (f d r c z).Quiet) : Confines W m (compare i f) :=
  .onRegisters hi fun _ _ _ => (Confined.refl W m).applyFlags (hf _ _ _ _)

theorem multiply {f : Byte → Byte → Alu.Result Word} (hi : ∀ op ∈ i.operands, op.Writable)
    (hf : ∀ d r, (f d r).Quiet) : Confines W m (multiply i f) := by
  have hlow : 0 + 1 < registerCount := by decide
  exact .onRegisters hi fun _ _ _ => ((Confined.refl W m).writePair_registers hlow _).applyFlags (hf _ _)

theorem combineImm {f : Byte → Byte → Bool → Bool → Alu.Result Byte} (hi : ∀ op ∈ i.operands, op.Writable)
    (hf : ∀ d r c z, (f d r c z).Quiet) : Confines W m (combineImm i f) :=
  .onConstant hi fun _ hrd _ => ((Confined.refl W m).write_register hrd _).applyFlags (hf _ _ _ _)

theorem modifyRegister {f : Byte → Bool → Alu.Result Byte} (hi : ∀ op ∈ i.operands, op.Writable)
    (hf : ∀ d c, (f d c).Quiet) : Confines W m (modifyRegister i f) :=
  .onRegister hi fun _ hrd => ((Confined.refl W m).write_register hrd _).applyFlags (hf _ _)

/-! ### Transfers of control -/

theorem of_mayTake {x : Exec γ α} (hx : MayTake x) : Confines W m x := by
  intro a m' hrun
  have hreached := hx m
  rw [hrun] at hreached
  obtain h | ⟨cycles, -, -, h⟩ := hreached
  · rw [show m' = m from h]
    exact .refl W m
  · rw [show m' = m.countTaken cycles from h]
    exact (Confined.refl W m).countTaken cycles

theorem print [Console γ] : Confines W m print := by
  intro a m' hrun
  rw [print_run] at hrun
  split at hrun
  · cases hrun
  · split at hrun
    · cases hrun
    · split at hrun
      · next text _ =>
        cases hrun
        have hemit : m.Confined W { m with console := Console.emit m.console text } := (Confined.refl W m).of_memory rfl
        exact hemit.afterPrint text.length
      · cases hrun

end Confines

end Rules

end Machine

end Avr

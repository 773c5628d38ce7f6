import Avr.Proofs.Machine.Confined
import Avr.Proofs.Machine.Limited

/-!
# The cells that instructions write

* `Instruction.effective?` : the cell of data memory that an instruction means by its operands;
* `Instruction.Reaches` : the cells behind the registers that an instruction may change, the status register with them
  only if it may change the bits for interrupts and transfer;
* `execute_confined` : an instruction that succeeds changes no others, mnemonic by mnemonic;
* `Framed` : the same as seen from data, input/output cells, stack pointer and status register; `execute_framed` : so
  does every admitted instruction.
-/

namespace Avr

variable {γ : Type}

/-! ## What an instruction may change -/

/-- The cell of data memory that an instruction means by its operands, of those that write to such a cell. -/
def Instruction.effective? (i : Instruction) (m : Machine γ) : Option Nat :=
  match i.mnemonic, i.operands with
  | .OUT, .imm a :: _ | .SBI, .imm a :: _ | .CBI, .imm a :: _ => some (ioAddressOf a)
  | .STS, .imm a :: _ => some (addressOf a)
  | .ST, .ptr p mode :: _ | .STD, .ptr p mode :: _ => some (m.address p mode).1
  | .XCH, _ => some (m.pointer .Z).toNat
  | _, _ => none

/-- An instruction that moves the stack pointer: it pushes, pops, returns or calls. -/
def Instruction.MovesStack (i : Instruction) : Prop := i.mnemonic ∈ [.PUSH, .POP, .RET, .RETI] ∨ i.Calls

/-- The cells behind the registers that an instruction may change on a machine. The status register is one of them if
the instruction may change more than the outcome of arithmetic in it. -/
inductive Instruction.Reaches (i : Instruction) (m : Machine γ) : Nat → Prop
  | output {a : Nat} (hmn : i.mnemonic = .OUT) (ha : i.effective? m = some a) (hlow : ioOffset ≤ a)
      (hhigh : a ≤ statusCell) : Reaches i m a
  | ioBit {a : Nat} (hmn : i.mnemonic ∈ [.SBI, .CBI]) (ha : i.effective? m = some a) (hlow : ioOffset ≤ a)
      (hhigh : a < stackLowCell) : Reaches i m a
  | direct {a : Nat} (hmn : i.mnemonic = .STS) (ha : i.effective? m = some a) (hlow : ramStart ≤ a) : Reaches i m a
  | store {a : Nat} (hmn : i.mnemonic ∈ [.ST, .STD, .XCH]) (ha : i.effective? m = some a) : Reaches i m a
  | push (hmn : i.mnemonic = .PUSH) (hlow : ramStart ≤ m.sp.toNat) : Reaches i m m.sp.toNat
  | call {a : Nat} (hi : i.Calls) (hroom : ramStart < m.sp.toNat) (ha : a = m.sp.toNat ∨ a + 1 = m.sp.toNat) :
      Reaches i m a
  | stackPointer {a : Nat} (hi : i.MovesStack) (ha : a = stackLowCell ∨ a = stackHighCell) : Reaches i m a
  | status (hmn : i.mnemonic ∈ [.BSET, .BCLR, .SEI, .CLI, .SET, .CLT, .BST, .RETI]) : Reaches i m statusCell

namespace Machine

variable {m m' : Machine γ} {i : Instruction} {mn : Mnemonic} {ops : List Operand} {o : String} {l : Nat}

/-! ## Parts of instructions -/

theorem confines_assignIoBit (ha : Admitted mn ops) (hargs : mn.entry.args = [Catalog.Place.lowIo, Catalog.Place.bit])
    (hmn : mn = .SBI ∨ mn = .CBI) (v : Bool) :
    Confines (Instruction.Reaches ⟨mn, ops, o, l⟩ m) m (assignIoBit ⟨mn, ops, o, l⟩ v) := by
  obtain ⟨op, op', rfl, hio, hbit⟩ := exists_of_admits_two hargs ha
  obtain ⟨a, rfl⟩ := hio.numberUpTo 31 rfl
  obtain ⟨n, rfl, -⟩ := hbit.int
  have hcell : ioAddressOf a.val = a.val + ioOffset := ioAddressOf_natCast (by omega)
  have hbelow : ioOffset + 32 ≤ stackLowCell := by decide
  have hreaches : Instruction.Reaches ⟨mn, [.imm a.val, .imm n], o, l⟩ m (ioAddressOf a.val) := by
    rcases hmn with rfl | rfl
    · exact .ioBit (by simp) rfl (by omega) (by omega)
    · exact .ioBit (by simp) rfl (by omega) (by omega)
  exact .load fun _ => .storeNext (f := fun m => m) hreaches fun _ hn => hn

theorem Confined.moveStack (h : m.Confined (i.Reaches m) m') (hi : i.MovesStack) (w : Word) :
    m.Confined (i.Reaches m) (m'.setSp w) :=
  h.setSp (.stackPointer hi (.inl rfl)) (.stackPointer hi (.inr rfl)) w

theorem confines_popReturn {f : Nat → Exec γ Control} (hi : i.MovesStack)
    (hf : ∀ target n, m.Confined (i.Reaches m) n → ∀ c m', f target n = .ok c m' → m.Confined (i.Reaches m) m') :
    Confines (i.Reaches m) m (popReturn >>= f) := by
  intro c m' h
  obtain ⟨target, n, hpop, hnext⟩ := bind_ok h
  rw [popReturn_run] at hpop
  split at hpop
  · cases hpop
  · split at hpop
    · cases hpop
    · cases hpop
      exact hf _ _ ((Confined.refl _ m).moveStack hi _) c m' hnext

section

variable [Console γ]

/-! ## Instructions that write to a cell -/

theorem confines_output (ha : Admitted .OUT ops) :
    Confines (Instruction.Reaches ⟨.OUT, ops, o, l⟩ m) m (execute ⟨.OUT, ops, o, l⟩) := by
  obtain ⟨op, op', rfl, hio, hreg⟩ := exists_of_admits_two rfl ha
  obtain ⟨a, rfl⟩ := hio.numberUpTo 63 rfl
  obtain ⟨r, rfl⟩ := hreg.registerUpTo 31 rfl
  have hcell : ioAddressOf a.val = a.val + ioOffset := ioAddressOf_natCast (by omega)
  have hlast : statusCell = ioOffset + 63 := rfl
  have hreaches : Instruction.Reaches ⟨.OUT, [.imm a.val, .reg r], o, l⟩ m (ioAddressOf a.val) :=
    .output rfl rfl (by omega) (by omega)
  have hrun : (execute ⟨.OUT, [.imm a.val, .reg r], o, l⟩ : Exec γ Control) m =
      ((store (ioAddressOf a.val) (m.register r) >>= fun _ => thenNext fun n => n) : Exec γ Control) m := rfl
  exact .congr hrun (.storeNext hreaches fun _ hn => hn)

theorem confines_direct (ha : Admitted .STS ops) :
    Confines (Instruction.Reaches ⟨.STS, ops, o, l⟩ m) m (execute ⟨.STS, ops, o, l⟩) := by
  obtain ⟨op, op', rfl, hk, hreg⟩ := exists_of_admits_two rfl ha
  obtain ⟨k, rfl, hbounds⟩ := hk.int
  obtain ⟨r, rfl⟩ := hreg.registerUpTo 31 rfl
  rw [admitsValue_range] at hbounds
  have hlow : ramStart ≤ addressOf k := by
    unfold ramStart addressOf
    omega
  have hreaches : Instruction.Reaches ⟨.STS, [.imm k, .reg r], o, l⟩ m (addressOf k) := .direct rfl rfl hlow
  have hrun : (execute ⟨.STS, [.imm k, .reg r], o, l⟩ : Exec γ Control) m =
      ((store (addressOf k) (m.register r) >>= fun _ => thenNext fun n => n) : Exec γ Control) m := rfl
  exact .congr hrun (.storeNext hreaches fun _ hn => hn)

theorem confines_store {s : Catalog.ArgSpec} (hs : s = Catalog.Place.pointer ∨ s = Catalog.Place.pointerDisp)
    (ha : Admitted mn ops) (hargs : mn.entry.args = [s, Catalog.Place.reg]) (hmn : mn = .ST ∨ mn = .STD) :
    Confines (Instruction.Reaches ⟨mn, ops, o, l⟩ m) m (execute ⟨mn, ops, o, l⟩) := by
  obtain ⟨op, op', rfl, hptr, hreg⟩ := exists_of_admits_two hargs ha
  obtain ⟨p, mode, rfl, -⟩ := exists_pointer hs hptr
  obtain ⟨r, rfl⟩ := hreg.registerUpTo 31 rfl
  have hreaches : Instruction.Reaches ⟨mn, [.ptr p mode, .reg r], o, l⟩ m (m.address p mode).1 := by
    rcases hmn with rfl | rfl
    · exact .store (by simp) rfl
    · exact .store (by simp) rfl
  have hrun : (execute ⟨mn, [.ptr p mode, .reg r], o, l⟩ : Exec γ Control) m =
      ((store (m.address p mode).1 (m.register r) >>= fun _ => thenNext fun n =>
        n.updatePointer p (m.address p mode).2) : Exec γ Control) m := by
    rcases hmn with rfl | rfl <;> rfl
  exact .congr hrun (.storeNext hreaches fun _ hn => hn.updatePointer p _)

theorem confines_exchange (ha : Admitted .XCH ops) :
    Confines (Instruction.Reaches ⟨.XCH, ops, o, l⟩ m) m (execute ⟨.XCH, ops, o, l⟩) := by
  obtain ⟨op, op', rfl, -, hreg⟩ := exists_of_admits_two rfl ha
  obtain ⟨r, rfl⟩ := hreg.registerUpTo 31 rfl
  have hreaches : Instruction.Reaches ⟨.XCH, [op, .reg r], o, l⟩ m (m.pointer .Z).toNat := .store (by simp) rfl
  refine .get (.load fun old => ?_)
  exact .storeNext hreaches fun _ hn => hn.write_register r.isLt old

/-! ## Instructions on the stack -/

theorem confines_push (ha : Admitted .PUSH ops) :
    Confines (Instruction.Reaches ⟨.PUSH, ops, o, l⟩ m) m (execute ⟨.PUSH, ops, o, l⟩) := by
  obtain ⟨r, rfl⟩ := exists_register ha rfl rfl
  have hrun : (execute ⟨.PUSH, [.reg r], o, l⟩ : Exec γ Control) m =
      ((push (m.register r) >>= fun _ => pure .next) : Exec γ Control) m := rfl
  intro c m' h
  rw [hrun] at h
  obtain ⟨u, n, hpush, hnext⟩ := bind_ok h
  cases hnext
  rw [push_run] at hpush
  split at hpush
  · cases hpush
  · next hlow =>
    have hcell : Instruction.Reaches ⟨.PUSH, [.reg r], o, l⟩ m m.sp.toNat := .push rfl (Nat.le_of_not_lt hlow)
    split at hpush
    · cases hpush
    · cases hpush
      exact ((Confined.refl _ m).write hcell (m.register r)).moveStack (.inl (by simp)) _

theorem confines_pop (ha : Admitted .POP ops) :
    Confines (Instruction.Reaches ⟨.POP, ops, o, l⟩ m) m (execute ⟨.POP, ops, o, l⟩) := by
  obtain ⟨r, rfl⟩ := exists_register ha rfl rfl
  have hrun : (execute ⟨.POP, [.reg r], o, l⟩ : Exec γ Control) m =
      ((pop >>= fun b => thenNext fun m => m.write r b) : Exec γ Control) m := rfl
  intro c m' h
  rw [hrun] at h
  obtain ⟨b, n, hpop, hnext⟩ := bind_ok h
  cases hnext
  rw [pop_run] at hpop
  split at hpop
  · cases hpop
  · cases hpop
    exact ((Confined.refl _ m).moveStack (.inl (by simp)) _).write_register r.isLt _

theorem confines_ret : Confines (Instruction.Reaches ⟨.RET, ops, o, l⟩ m) m (execute ⟨.RET, ops, o, l⟩) := by
  have hpop : Confines (Instruction.Reaches ⟨.RET, ops, o, l⟩ m) m
      (popReturn >>= fun target => pure (Control.jump target)) := by
    refine confines_popReturn (.inl (by simp)) fun target n hn c m' h => ?_
    cases h
    exact hn
  refine .get ?_
  split
  · exact .pure _
  · exact hpop

theorem confines_reti : Confines (Instruction.Reaches ⟨.RETI, ops, o, l⟩ m) m (execute ⟨.RETI, ops, o, l⟩) := by
  have hstatus : Instruction.Reaches ⟨.RETI, ops, o, l⟩ m statusCell := .status (by simp)
  have hpop : Confines (Instruction.Reaches ⟨.RETI, ops, o, l⟩ m) m (popReturn >>= fun target =>
      (modify fun m => m.setFlag .I true) >>= fun _ => pure (Control.jump target)) := by
    refine confines_popReturn (.inl (by simp)) fun target n hn c m' h => ?_
    cases h
    exact hn.setFlag (.inr hstatus) true
  refine .get ?_
  split
  · exact .pure _
  · exact hpop

theorem confines_call (hi : i.Calls) : Confines (i.Reaches m) m (execute i) := by
  intro c m' h
  obtain ⟨⟨hroom, -⟩, rfl, -⟩ := execute_calls hi h
  have hbelow : m.sp.toNat - 1 + 1 = m.sp.toNat := by omega
  have hlow := (Confined.refl (i.Reaches m) m).write (.call hi hroom (.inl rfl))
    (lowByte (BitVec.ofNat 16 (m.pc + i.width)))
  have hboth := hlow.write (.call hi hroom (.inr hbelow)) (highByte (BitVec.ofNat 16 (m.pc + i.width)))
  exact hboth.moveStack (.inr hi) _

theorem confines_callOrPrint (hmn : i.mnemonic = .CALL ∨ i.mnemonic = .RCALL) :
    Confines (i.Reaches m) m (execute i) := by
  cases hcalls : i.callsFunc with
  | false => exact confines_call ⟨by rcases hmn with h | h <;> simp [h], hcalls⟩
  | true =>
    have hprint : (execute i : Exec γ Control) m = ((print >>= fun _ => pure .next) : Exec γ Control) m := by
      rcases hmn with h | h <;> simp only [execute, h, hcalls, if_true]
    intro c m' h
    rw [hprint] at h
    obtain ⟨u, n, hrun, hnext⟩ := bind_ok h
    cases hnext
    exact Confines.print u m' hrun

/-! ## All instructions -/

/-- An admitted instruction that succeeds changes only the cells that it may. -/
theorem execute_confined (ha : Admitted i.mnemonic i.operands) : Confines (i.Reaches m) m (execute i) := by
  obtain ⟨mn, ops, o, l⟩ := i
  have hi : ∀ op ∈ (⟨mn, ops, o, l⟩ : Instruction).operands, op.Writable := writable_of_admitted ha
  have hrefl := Confined.refl (Instruction.Reaches ⟨mn, ops, o, l⟩ m) m
  by_cases hcond : mn.isConditional = true
  · exact .of_mayTake (execute_conditional hcond)
  unfold execute
  cases mn with
  | ADD | ADC | SUB | SBC => exact .combine hi fun _ _ _ _ => Alu.quiet_arithmetic rfl
  | AND | OR | EOR => exact .combine hi fun _ _ _ _ => Alu.quiet_logic rfl
  | CP | CPC => exact .compare hi fun _ _ _ _ => Alu.quiet_arithmetic rfl
  | MUL | MULS | MULSU | FMUL | FMULS | FMULSU => exact .multiply hi fun _ _ => Alu.quiet_product rfl
  | ANDI | ORI | SBR | CBR => exact .combineImm hi fun _ _ _ _ => Alu.quiet_logic rfl
  | SUBI | SBCI => exact .combineImm hi fun _ _ _ _ => Alu.quiet_arithmetic rfl
  | DEC | INC | CLR => exact .modifyRegister hi fun _ _ => Alu.quiet_logic rfl
  | ASR | COM | LSR | ROR => exact .modifyRegister hi fun _ _ => Alu.quiet_shift rfl
  | LSL | NEG | ROL => exact .modifyRegister hi fun _ _ => Alu.quiet_arithmetic rfl
  | ADIW | SBIW =>
    obtain ⟨op, op', rfl, hreg, -⟩ := exists_of_admits_two rfl ha
    obtain ⟨r, rfl, heven, -, hr⟩ := exists_of_admits_wordReg hreg
    have hpair : r + 1 < registerCount := by
      unfold registerCount
      omega
    exact .imm fun _ => .thenNext ((hrefl.writePair_registers hpair _).applyFlags (Alu.quiet_shift rfl))
  | MOV => exact .onRegisters hi fun _ hrd _ => hrefl.write_register hrd _
  | MOVW =>
    obtain ⟨op, op', rfl, hreg, hreg'⟩ := exists_of_admits_two rfl ha
    obtain ⟨d, rfl, heven, hd⟩ := exists_of_admits_evenReg hreg
    obtain ⟨r, rfl, -⟩ := exists_of_admits_evenReg hreg'
    have hpair : d + 1 < registerCount := by
      unfold registerCount
      omega
    exact .thenNext (hrefl.writePair_registers hpair _)
  | CPI => exact .onConstant hi fun _ _ _ => hrefl.applyFlags (Alu.quiet_arithmetic rfl)
  | LDI => exact .onConstant hi fun _ hrd _ => hrefl.write_register hrd _
  | SWAP | SER => exact .onRegister hi fun _ hrd => hrefl.write_register hrd _
  | TST => exact .onRegister hi fun _ _ => hrefl.applyFlags (Alu.quiet_logic rfl)
  | SEC | SEZ | SEN | SEV | SES | SEH | CLC | CLZ | CLN | CLV | CLS | CLH =>
    exact .thenNext (hrefl.setFlag (.inl (by decide)) _)
  | SET | SEI | CLT | CLI => exact .thenNext (hrefl.setFlag (.inr (.status (by simp))) _)
  | BSET | BCLR => exact .bit fun _ => .thenNext (hrefl.setFlag (.inr (.status (by simp))) _)
  | BST => exact .reg hi fun _ _ => .bit fun _ => .thenNext (hrefl.setFlag (.inr (.status (by simp))) _)
  | BLD => exact .reg hi fun _ hrd => .bit fun _ => .thenNext (hrefl.write_register hrd _)
  | IN | LDS => exact .imm fun _ => .load fun _ => .reg hi fun _ hrd => .thenNext (hrefl.write_register hrd _)
  | LD | LDD =>
    refine .reg hi fun _ hrd => .bind (passive_ptr _ 1) fun ⟨p, mode⟩ _ => .get (.load fun _ => .thenNext ?_)
    exact (hrefl.updatePointer p _).write_register hrd _
  | OUT => exact confines_output ha
  | STS => exact confines_direct ha
  | XCH => exact confines_exchange ha
  | ST => exact confines_store (.inl rfl) ha rfl (.inl rfl)
  | STD => exact confines_store (.inr rfl) ha rfl (.inr rfl)
  | SBI => exact confines_assignIoBit ha rfl (.inl rfl) true
  | CBI => exact confines_assignIoBit ha rfl (.inr rfl) false
  | PUSH => exact confines_push ha
  | POP => exact confines_pop ha
  | RET => exact confines_ret
  | RETI => exact confines_reti
  | CALL => exact confines_callOrPrint (.inl rfl)
  | RCALL => exact confines_callOrPrint (.inr rfl)
  | ICALL =>
    obtain rfl := List.forall₂_nil_left_iff.1 ha
    exact confines_call ⟨by simp, rfl⟩
  | RJMP => exact .imm fun k => .passive ((passive_relative k).bind fun _ => passive_pure _)
  | JMP => exact .imm fun k => .passive ((passive_absolute k).bind fun _ => passive_pure _)
  | IJMP => exact .get (.passive ((passive_absolute _).bind fun _ => passive_pure _))
  | BREAK | NOP | SLEEP | WDR => exact .pure _
  | _ => exact absurd rfl hcond

end

/-! ## Frames -/

/-- What an instruction leaves alone, in the parts of data memory behind the registers. -/
structure Framed (i : Instruction) (m m' : Machine γ) : Prop where
  data : ∀ a, ramStart ≤ a → m'.memory.read a ≠ m.memory.read a →
    (i.mnemonic ∈ [.ST, .STD, .STS, .XCH] ∧ i.effective? m = some a) ∨ (i.mnemonic = .PUSH ∧ a = m.sp.toNat) ∨
      (i.Calls ∧ (a = m.sp.toNat ∨ a + 1 = m.sp.toNat))
  io : ∀ a, ioOffset ≤ a ∧ a < stackLowCell ∨ statusCell < a ∧ a < ramStart →
    m'.memory.read a ≠ m.memory.read a →
    i.mnemonic ∈ [.OUT, .SBI, .CBI, .ST, .STD, .XCH] ∧ i.effective? m = some a
  stackPointer : ∀ a, a = stackLowCell ∨ a = stackHighCell → m'.memory.read a ≠ m.memory.read a →
    i.MovesStack ∨ (i.mnemonic ∈ [.OUT, .ST, .STD, .XCH] ∧ i.effective? m = some a)
  status : ∀ b, b = .I ∨ b = .T → m'.flag b ≠ m.flag b →
    i.mnemonic ∈ [.BSET, .BCLR, .SEI, .CLI, .SET, .CLT, .BST, .RETI] ∨
      (i.mnemonic ∈ [.OUT, .ST, .STD, .XCH] ∧ i.effective? m = some statusCell)

theorem Confined.reaches (h : m.Confined (i.Reaches m) m') {a : Nat} (ha : registerCount ≤ a) (hne : a ≠ statusCell)
    (hread : m'.memory.read a ≠ m.memory.read a) : i.Reaches m a := by
  by_contra hreaches
  exact hread (h.cells a ha hne hreaches)

theorem Confined.framed (h : m.Confined (i.Reaches m) m') : Framed i m m' := by
  have hregisters : registerCount = ioOffset := rfl
  have hlow : ioOffset < stackLowCell := by decide
  have hhigh : stackHighCell = stackLowCell + 1 := rfl
  have hstatus : statusCell = stackHighCell + 1 := rfl
  have hdata : statusCell < ramStart := by decide
  constructor
  · intro a ha hread
    cases h.reaches (by omega) (by omega) hread with
    | direct hmn heffective => exact .inl ⟨by simp [hmn], heffective⟩
    | store hmn heffective => exact .inl ⟨by aesop, heffective⟩
    | push hmn _ => exact .inr (.inl ⟨hmn, rfl⟩)
    | call hi _ hcell => exact .inr (.inr ⟨hi, hcell⟩)
    | _ => omega
  · intro a ha hread
    cases h.reaches (by omega) (by omega) hread with
    | output hmn heffective => exact ⟨by simp [hmn], heffective⟩
    | ioBit hmn heffective => exact ⟨by aesop, heffective⟩
    | store hmn heffective => exact ⟨by aesop, heffective⟩
    | _ => omega
  · intro a ha hread
    cases h.reaches (by omega) (by omega) hread with
    | output hmn heffective => exact .inr ⟨by simp [hmn], heffective⟩
    | store hmn heffective => exact .inr ⟨by aesop, heffective⟩
    | stackPointer hi _ => exact .inl hi
    | _ => omega
  · intro b hb hflag
    have hreaches : i.Reaches m statusCell := by
      by_contra hreaches
      exact hflag (h.bits hreaches b hb)
    generalize hcell : statusCell = a at hreaches
    cases hreaches with
    | output hmn heffective => exact .inr ⟨by simp [hmn], heffective⟩
    | store hmn heffective => exact .inr ⟨by aesop, heffective⟩
    | status hmn => exact .inl hmn
    | _ => omega

/-- An admitted instruction that succeeds keeps its frame. -/
theorem execute_framed [Console γ] {i : Instruction} (ha : Admitted i.mnemonic i.operands) {c : Control}
    (h : execute i m = .ok c m') : Framed i m m' :=
  (execute_confined ha c m' h).framed

/-- An exchange whose pointer means the status register sets the bit for interrupts. -/
theorem execute_framed_exchange :
    let m := ((idle 0).write 30 0x5F).write 1 0xC0
    let i : Instruction := ⟨.XCH, [.ptr .Z .plain, .reg 1], "", 1⟩
    i.effective? m = some statusCell ∧ m.flag .I = false ∧
      ∃ m', execute i m = .ok .next m' ∧ m'.flag .I = true ∧ Framed i m m' := by
  intro m i
  have hadmitted : Admitted .XCH i.operands :=
    .cons ⟨by decide, .inr ⟨by decide, rfl⟩, nofun⟩ (.cons ⟨by decide, .inr ⟨rfl, by decide⟩, nofun⟩ .nil)
  have hpointer : (m.pointer .Z).toNat = statusCell := by decide +kernel
  have hrun : execute i m = .ok .next ((m.write statusCell (m.register 1)).write 1 (m.memory.read statusCell)) := by
    have hcell : inMemory statusCell = true := by decide
    show ((load (m.pointer .Z).toNat >>= fun old => get >>= fun n => store (m.pointer .Z).toNat (n.register 1) >>=
      fun _ => thenNext fun n => n.write 1 old) : Exec (Array Byte) Control) m = _
    rw [hpointer, bind_run_ok (load_ok hcell m), bind_run_ok (get_run m), bind_run_ok (store_ok hcell _ m)]
    rfl
  exact ⟨congrArg some hpointer, by decide +kernel, _, hrun, by decide +kernel, execute_framed hadmitted hrun⟩

end Machine

end Avr

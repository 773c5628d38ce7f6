import Avr.Proofs.Machine.Reachable

/-!
# Instructions on machines side by side

* `Parallel` : a relation between machines that all parts of instructions keep: it fixes program, data memory and
  program counter, and outlasts a change of data memory and a text printed; `Parallel.Counts` : a branch counted too;
* `Parallel.Alike` : parts of instructions with the same outcome on related machines, which stay related; `Alike.bind`
  and `Alike.get` put them together;
* `alike_load`, `alike_push`, `alike_print`, … : the parts; `alike_combine`, `alike_skipOn`, … : families of
  instructions;
* `alike_execute` : every instruction, whatever its operands; only those that count as branches ask for `Counts`;
* `execute_ok_frame` : what every instruction leaves alone.
-/

namespace Avr

variable {γ δ : Type}

/-! ## Related machines -/

/-- A relation between machines that all parts of instructions keep. -/
structure Parallel (γ δ : Type) [Console γ] [Console δ] where
  Rel : Machine γ → Machine δ → Prop
  program {m : Machine γ} {n : Machine δ} (h : Rel m n) : n.image.program = m.image.program
  memory {m : Machine γ} {n : Machine δ} (h : Rel m n) : n.memory = m.memory
  pc {m : Machine γ} {n : Machine δ} (h : Rel m n) : n.pc = m.pc
  withMemory {m : Machine γ} {n : Machine δ} (h : Rel m n) (memory : Memory) :
    Rel { m with memory := memory } { n with memory := memory }
  emit {m : Machine γ} {n : Machine δ} (h : Rel m n) (text : List Byte) :
    Rel { m with console := Console.emit m.console text } { n with console := Console.emit n.console text }

namespace Parallel

variable [Console γ] [Console δ] {R : Parallel γ δ}

/-- The relation outlasts a branch counted as taken. -/
def Counts (R : Parallel γ δ) : Prop :=
  ∀ {m : Machine γ} {n : Machine δ}, R.Rel m n → ∀ cycles, R.Rel (m.countTaken cycles) (n.countTaken cycles)

inductive Results (R : Parallel γ δ) {α : Type} :
    EStateM.Result Fault (Machine γ) α → EStateM.Result Fault (Machine δ) α → Prop
  | ok {m : Machine γ} {n : Machine δ} (a : α) (h : R.Rel m n) : Results R (.ok a m) (.ok a n)
  | error {m : Machine γ} {n : Machine δ} (f : Fault) (h : R.Rel m n) : Results R (.error f m) (.error f n)

/-- Parts of instructions with the same outcome on related machines. -/
def Alike (R : Parallel γ δ) {α : Type} (x : Exec γ α) (y : Exec δ α) : Prop :=
  ∀ m n, R.Rel m n → R.Results (x m) (y n)

namespace Rel

variable {m : Machine γ} {n : Machine δ}

/-! ### What related machines have in common -/

theorem register (h : R.Rel m n) (r : Nat) : n.register r = m.register r := by
  rw [Machine.register, Machine.register, R.memory h]

theorem pair (h : R.Rel m n) (r : Nat) : n.pair r = m.pair r := by
  rw [Machine.pair, Machine.pair, R.memory h]

theorem pointer (h : R.Rel m n) (p : Pointer) : n.pointer p = m.pointer p := h.pair _

theorem sp (h : R.Rel m n) : n.sp = m.sp := by
  rw [Machine.sp, Machine.sp, R.memory h]

theorem sreg (h : R.Rel m n) : n.sreg = m.sreg := by
  rw [Machine.sreg, Machine.sreg, R.memory h]

theorem flag (h : R.Rel m n) (b : StatusBit) : n.flag b = m.flag b := by
  rw [Machine.flag, Machine.flag, h.sreg]

theorem address (h : R.Rel m n) (p : Pointer) (mode : PointerMode) : n.address p mode = m.address p mode := by
  unfold Machine.address
  rw [h.pointer]

theorem returnTarget (h : R.Rel m n) : n.returnTarget = m.returnTarget := by
  rw [Machine.returnTarget, Machine.returnTarget, R.memory h, h.sp]

theorem relativeTarget (h : R.Rel m n) (k : Int) : n.relativeTarget k = m.relativeTarget k := by
  rw [Machine.relativeTarget, Machine.relativeTarget, R.pc h]

theorem nextWidth (h : R.Rel m n) : n.nextWidth = m.nextWidth := by
  unfold Machine.nextWidth
  rw [R.program h, R.pc h]

/-! ### Changes that related machines make together -/

theorem write (h : R.Rel m n) (a : Nat) (v : Byte) : R.Rel (m.write a v) (n.write a v) := by
  rw [Machine.write, Machine.write, R.memory h]
  exact R.withMemory h _

theorem writePair (h : R.Rel m n) (a : Nat) (w : Word) : R.Rel (m.writePair a w) (n.writePair a w) := by
  rw [Machine.writePair, Machine.writePair, R.memory h]
  exact R.withMemory h _

theorem setSp (h : R.Rel m n) (w : Word) : R.Rel (m.setSp w) (n.setSp w) := h.writePair _ w

theorem setFlag (h : R.Rel m n) (b : StatusBit) (v : Bool) : R.Rel (m.setFlag b v) (n.setFlag b v) := by
  rw [Machine.setFlag, Machine.setFlag, h.sreg]
  exact h.write _ _

theorem applyFlags {α : Type} (h : R.Rel m n) (r : Alu.Result α) : R.Rel (m.applyFlags r) (n.applyFlags r) := by
  rw [Machine.applyFlags, Machine.applyFlags, h.sreg]
  exact h.write _ _

theorem writeResult (h : R.Rel m n) (rd : Nat) (r : Alu.Result Byte) :
    R.Rel (m.writeResult rd r) (n.writeResult rd r) := (h.write _ _).applyFlags r

theorem writeWordResult (h : R.Rel m n) (rd : Nat) (r : Alu.Result Word) :
    R.Rel (m.writeWordResult rd r) (n.writeWordResult rd r) := (h.writePair _ _).applyFlags r

theorem updatePointer (h : R.Rel m n) (p : Pointer) (update : Option Word) :
    R.Rel (m.updatePointer p update) (n.updatePointer p update) := by
  cases update with
  | some w => exact h.writePair _ w
  | none => exact h

theorem withReturn (h : R.Rel m n) (index : Nat) : R.Rel (m.withReturn index) (n.withReturn index) := by
  unfold Machine.withReturn
  rw [h.sp]
  exact ((h.write _ _).write _ _).setSp _

theorem afterPrint (h : R.Rel m n) (length : Nat) : R.Rel (m.afterPrint length) (n.afterPrint length) := by
  have hgo : ∀ (rs : List Nat) (m : Machine γ) (n : Machine δ), R.Rel m n →
      R.Rel (rs.foldl (fun m r => m.write r 0xFF) m) (rs.foldl (fun n r => n.write r 0xFF) n) := by
    intro rs
    induction rs with
    | nil => intro m n h; exact h
    | cons r rs ih => intro m n h; exact ih _ _ (h.write r 0xFF)
  unfold Machine.afterPrint
  exact hgo _ _ _ ((h.write _ _).write _ _)

end Rel

/-! ## Parts put together -/

section Parts

variable {α β : Type}

theorem Alike.pure (a : α) : R.Alike (pure a) (pure a) := fun _ _ h => .ok a h

theorem Alike.throw (f : Fault) : R.Alike (throw f : Exec γ α) (throw f) := fun _ _ h => .error f h

theorem Alike.bind {x : Exec γ α} {y : Exec δ α} {f : α → Exec γ β} {g : α → Exec δ β} (hx : R.Alike x y)
    (hf : ∀ a, R.Alike (f a) (g a)) : R.Alike (x >>= f) (y >>= g) := by
  intro m n h
  have hfirst := hx m n h
  generalize hm : x m = r at hfirst
  generalize hn : y n = r' at hfirst
  cases hfirst with
  | ok a h' =>
    rw [Machine.bind_run_ok hm, Machine.bind_run_ok hn]
    exact hf a _ _ h'
  | error f h' =>
    rw [Machine.bind_run_error hm, Machine.bind_run_error hn]
    exact .error f h'

/-- What a part reads from its machine is the same for related ones. -/
theorem Alike.get {f : Machine γ → Exec γ α} {g : Machine δ → Exec δ α}
    (h : ∀ m n, R.Rel m n → R.Alike (f m) (g n)) : R.Alike (get >>= f) (get >>= g) :=
  fun m n hm => h m n hm m n hm

theorem Alike.thenNext {f : Machine γ → Machine γ} {g : Machine δ → Machine δ}
    (h : ∀ m n, R.Rel m n → R.Rel (f m) (g n)) : R.Alike (Machine.thenNext f) (Machine.thenNext g) :=
  fun m n hm => .ok Control.next (h m n hm)

end Parts

/-! ## Operands -/

section Operands

variable (R) (i : Instruction) (k : Nat)

theorem alike_reg : R.Alike (i.reg k) (i.reg k) := by
  unfold Instruction.reg
  split
  · exact .pure _
  · exact .throw _

theorem alike_imm : R.Alike (i.imm k) (i.imm k) := by
  unfold Instruction.imm
  split
  · exact .pure _
  · exact .throw _

theorem alike_bit : R.Alike (i.bit k) (i.bit k) := (R.alike_imm i k).bind fun _ => .pure _

theorem alike_ptr : R.Alike (i.ptr k) (i.ptr k) := by
  unfold Instruction.ptr
  split
  · exact .pure _
  · exact .throw _

end Operands

/-! ## Parts of instructions -/

section

variable (R)

theorem alike_load (a : Nat) : R.Alike (Machine.load a) (Machine.load a) := by
  intro m n h
  rw [Machine.load_run, Machine.load_run, R.memory h]
  split
  · exact .ok _ h
  · exact .error _ h

theorem alike_store (a : Nat) (v : Byte) : R.Alike (Machine.store a v) (Machine.store a v) := by
  intro m n h
  rw [Machine.store_run, Machine.store_run]
  split
  · exact .ok () (h.write a v)
  · exact .error _ h

theorem alike_absolute (k : Int) : R.Alike (Machine.absolute k) (Machine.absolute k) := by
  intro m n h
  rw [Machine.absolute_run, Machine.absolute_run]
  split
  · exact .ok _ h
  · exact .error _ h

theorem alike_relative (k : Int) : R.Alike (Machine.relative k) (Machine.relative k) := by
  intro m n h
  rw [Machine.relative_run, Machine.relative_run, h.relativeTarget]
  exact R.alike_absolute _ m n h

theorem alike_branch (hcounts : R.Counts) (taken : Bool) (k : Int) :
    R.Alike (Machine.branch taken k) (Machine.branch taken k) := by
  intro m n h
  cases taken with
  | false => exact .ok Control.next h
  | true =>
    rw [Machine.branch_run, Machine.branch_run, h.relativeTarget]
    split
    · exact .ok _ (hcounts h 1)
    · exact .error _ (hcounts h 1)

theorem alike_skip (hcounts : R.Counts) (taken : Bool) : R.Alike (Machine.skip taken) (Machine.skip taken) := by
  intro m n h
  cases taken with
  | false => exact .ok Control.next h
  | true =>
    have hrun : ∀ {ε : Type} (m : Machine ε), (Machine.skip true : Exec ε Control) m =
        .ok (.jump (m.pc + 1 + m.nextWidth)) (m.countTaken m.nextWidth) := fun _ => rfl
    rw [hrun, hrun, R.pc h, h.nextWidth]
    exact .ok _ (hcounts h _)

theorem alike_push (v : Byte) : R.Alike (Machine.push v) (Machine.push v) := by
  intro m n h
  rw [Machine.push_run, Machine.push_run, h.sp]
  split
  · exact .error _ h
  · split
    · exact .error _ h
    · exact .ok () ((h.write _ _).setSp _)

theorem alike_pop : R.Alike Machine.pop Machine.pop := by
  intro m n h
  rw [Machine.pop_run, Machine.pop_run, h.sp, R.memory h]
  split
  · exact .error _ h
  · exact .ok _ (h.setSp _)

theorem alike_pushReturn (index : Nat) : R.Alike (Machine.pushReturn index) (Machine.pushReturn index) := by
  intro m n h
  by_cases hroom : ramStart < m.sp.toNat ∧ m.sp.toNat ≤ ramEnd
  · rw [Machine.pushReturn_run hroom, Machine.pushReturn_run (h.sp.symm ▸ hroom)]
    exact .ok () (h.withReturn index)
  · have hfull : m.sp.toNat ≤ ramStart ∨ ramEnd < m.sp.toNat := by omega
    rw [Machine.pushReturn_error hfull, Machine.pushReturn_error (h.sp.symm ▸ hfull), h.sp]
    split
    · exact .error _ h
    · exact .error _ h

theorem alike_popReturn : R.Alike Machine.popReturn Machine.popReturn := by
  intro m n h
  rw [Machine.popReturn_run, Machine.popReturn_run, h.sp, h.returnTarget]
  split
  · exact .error _ h
  · split
    · exact .error _ h
    · exact .ok _ (h.setSp _)

theorem alike_call (target width : Nat) : R.Alike (Machine.call target width) (Machine.call target width) := by
  refine .get fun m n h => ?_
  rw [R.pc h]
  exact (R.alike_pushReturn _).bind fun _ => .pure _

/-- Both consoles get the text that memory holds. -/
theorem alike_print : R.Alike Machine.print Machine.print := by
  intro m n h
  have hstring : n.memory.string? m.returnTarget = m.memory.string? m.returnTarget := by rw [R.memory h]
  rw [Machine.print_run, Machine.print_run, h.sp, h.returnTarget, hstring]
  split
  · exact .error _ h
  · split
    · exact .error _ h
    · split
      · exact .ok () ((R.emit h _).afterPrint _)
      · exact .error _ h

/-! ## Families of instructions -/

variable (i : Instruction)

theorem alike_onRegisters {f : Nat → Nat → Machine γ → Machine γ} {g : Nat → Nat → Machine δ → Machine δ}
    (h : ∀ rd rr m n, R.Rel m n → R.Rel (f rd rr m) (g rd rr n)) :
    R.Alike (Machine.onRegisters i f) (Machine.onRegisters i g) :=
  (R.alike_reg i 0).bind fun rd => (R.alike_reg i 1).bind fun rr => .thenNext (h rd rr)

theorem alike_onConstant {f : Nat → Byte → Machine γ → Machine γ} {g : Nat → Byte → Machine δ → Machine δ}
    (h : ∀ rd k m n, R.Rel m n → R.Rel (f rd k m) (g rd k n)) :
    R.Alike (Machine.onConstant i f) (Machine.onConstant i g) :=
  (R.alike_reg i 0).bind fun rd => (R.alike_imm i 1).bind fun _ => .thenNext (h rd _)

theorem alike_onRegister {f : Nat → Machine γ → Machine γ} {g : Nat → Machine δ → Machine δ}
    (h : ∀ rd m n, R.Rel m n → R.Rel (f rd m) (g rd n)) :
    R.Alike (Machine.onRegister i f) (Machine.onRegister i g) :=
  (R.alike_reg i 0).bind fun rd => .thenNext (h rd)

theorem alike_combine (f : Byte → Byte → Bool → Bool → Alu.Result Byte) :
    R.Alike (Machine.combine i f) (Machine.combine i f) := by
  refine R.alike_onRegisters i fun rd rr m n h => ?_
  rw [h.register, h.register, h.flag, h.flag]
  exact h.writeResult _ _

theorem alike_compare (f : Byte → Byte → Bool → Bool → Alu.Result Byte) :
    R.Alike (Machine.compare i f) (Machine.compare i f) := by
  refine R.alike_onRegisters i fun rd rr m n h => ?_
  rw [h.register, h.register, h.flag, h.flag]
  exact h.applyFlags _

theorem alike_multiply (f : Byte → Byte → Alu.Result Word) :
    R.Alike (Machine.multiply i f) (Machine.multiply i f) := by
  refine R.alike_onRegisters i fun rd rr m n h => ?_
  rw [h.register, h.register]
  exact h.writeWordResult _ _

theorem alike_combineImm (f : Byte → Byte → Bool → Bool → Alu.Result Byte) :
    R.Alike (Machine.combineImm i f) (Machine.combineImm i f) := by
  refine R.alike_onConstant i fun rd k m n h => ?_
  rw [h.register, h.flag, h.flag]
  exact h.writeResult _ _

theorem alike_modifyRegister (f : Byte → Bool → Alu.Result Byte) :
    R.Alike (Machine.modifyRegister i f) (Machine.modifyRegister i f) := by
  refine R.alike_onRegister i fun rd m n h => ?_
  rw [h.register, h.flag]
  exact h.writeResult _ _

theorem alike_combineWord (f : Word → Word → Alu.Result Word) :
    R.Alike (Machine.combineWord i f) (Machine.combineWord i f) := by
  refine (R.alike_reg i 0).bind fun rd => (R.alike_imm i 1).bind fun k => .thenNext fun m n h => ?_
  rw [h.pair]
  exact h.writeWordResult _ _

theorem alike_setFlag (b : StatusBit) (v : Bool) :
    R.Alike (Machine.thenNext fun m => m.setFlag b v) (Machine.thenNext fun n => n.setFlag b v) :=
  .thenNext fun _ _ h => h.setFlag b v

theorem alike_assignIoBit (v : Bool) : R.Alike (Machine.assignIoBit i v) (Machine.assignIoBit i v) :=
  (R.alike_imm i 0).bind fun _ => (R.alike_bit i 1).bind fun _ => (R.alike_load _).bind fun _ =>
    (R.alike_store _ _).bind fun _ => .pure _

theorem alike_branchOn (hcounts : R.Counts) (b : StatusBit) (v : Bool) (k : Int) :
    R.Alike (Machine.branchOn b v k) (Machine.branchOn b v k) := by
  refine .get fun m n h => ?_
  rw [h.flag]
  exact R.alike_branch hcounts _ k

theorem alike_branchTo (hcounts : R.Counts) (b : StatusBit) (v : Bool) (k : Nat) :
    R.Alike (i.imm k >>= Machine.branchOn b v) (i.imm k >>= Machine.branchOn b v) :=
  (R.alike_imm i k).bind fun _ => R.alike_branchOn hcounts b v _

theorem alike_skipOn (hcounts : R.Counts) (r : Nat) (test : Byte → Bool) :
    R.Alike (get >>= fun m => Machine.skip (test (m.register r)))
      (get >>= fun n => Machine.skip (test (n.register r))) := by
  refine .get fun m n h => ?_
  rw [h.register]
  exact R.alike_skip hcounts _

theorem alike_storeRegister (a r : Nat) :
    R.Alike (get >>= fun m => Machine.store a (m.register r)) (get >>= fun n => Machine.store a (n.register r)) := by
  refine .get fun m n h => ?_
  rw [h.register]
  exact R.alike_store _ _

end

/-! ## All instructions -/

/-- Every instruction has the same outcome on related machines, whatever its operands. Only those that count as
branches count one as taken. -/
theorem alike_execute (R : Parallel γ δ) (i : Instruction) (hcounts : i.mnemonic.isConditional = true → R.Counts) :
    R.Alike (Machine.execute i) (Machine.execute i) := by
  obtain ⟨mn, ops, o, l⟩ := i
  unfold Machine.execute
  cases mn with
  | ADD | ADC | SUB | SBC | AND | OR | EOR => exact R.alike_combine _ _
  | CP | CPC => exact R.alike_compare _ _
  | MUL | MULS | MULSU | FMUL | FMULS | FMULSU => exact R.alike_multiply _ _
  | ANDI | ORI | SBR | CBR | SUBI | SBCI => exact R.alike_combineImm _ _
  | ASR | COM | DEC | INC | LSL | LSR | NEG | ROL | ROR | CLR => exact R.alike_modifyRegister _ _
  | ADIW | SBIW => exact R.alike_combineWord _ _
  | MOV =>
    refine R.alike_onRegisters _ fun rd rr m n h => ?_
    rw [h.register]
    exact h.write _ _
  | MOVW =>
    refine R.alike_onRegisters _ fun rd rr m n h => ?_
    rw [h.pair]
    exact h.writePair _ _
  | CPI =>
    refine R.alike_onConstant _ fun rd k m n h => ?_
    rw [h.register]
    exact h.applyFlags _
  | LDI => exact R.alike_onConstant _ fun rd k m n h => h.write rd k
  | SWAP =>
    refine R.alike_onRegister _ fun rd m n h => ?_
    rw [h.register]
    exact h.write _ _
  | TST =>
    refine R.alike_onRegister _ fun rd m n h => ?_
    rw [h.register]
    exact h.applyFlags _
  | SER => exact R.alike_onRegister _ fun rd m n h => h.write rd 0xFF
  | SEC | SEZ | SEN | SEV | SES | SEH | SET | SEI | CLC | CLZ | CLN | CLV | CLS | CLH | CLT | CLI =>
    exact R.alike_setFlag _ _
  | BSET | BCLR => exact (R.alike_bit _ 0).bind fun n => R.alike_setFlag _ _
  | BST =>
    refine (R.alike_reg _ 0).bind fun rd => (R.alike_bit _ 1).bind fun k => .thenNext fun m n h => ?_
    rw [h.register]
    exact h.setFlag _ _
  | BLD =>
    refine (R.alike_reg _ 0).bind fun rd => (R.alike_bit _ 1).bind fun k => .thenNext fun m n h => ?_
    rw [h.register, h.flag]
    exact h.write _ _
  | BRBC | BRBS => exact (R.alike_bit _ 0).bind fun n => R.alike_branchTo _ (hcounts rfl) _ _ 1
  | BRCC | BRSH | BRCS | BRLO | BRNE | BREQ | BRPL | BRMI | BRVC | BRVS | BRGE | BRLT | BRHC | BRHS | BRTC | BRTS
  | BRID | BRIE => exact R.alike_branchTo _ (hcounts rfl) _ _ 0
  | CPSE =>
    refine (R.alike_reg _ 0).bind fun rd => (R.alike_reg _ 1).bind fun rr => .get fun m n h => ?_
    rw [h.register, h.register]
    exact R.alike_skip (hcounts rfl) _
  | SBRC =>
    exact (R.alike_reg _ 0).bind fun r => (R.alike_bit _ 1).bind fun n =>
      R.alike_skipOn (hcounts rfl) r fun b => !b.getLsbD n
  | SBRS =>
    exact (R.alike_reg _ 0).bind fun r => (R.alike_bit _ 1).bind fun n =>
      R.alike_skipOn (hcounts rfl) r fun b => b.getLsbD n
  | SBIC | SBIS =>
    exact (R.alike_imm _ 0).bind fun a => (R.alike_load _).bind fun b => (R.alike_bit _ 1).bind fun n =>
      R.alike_skip (hcounts rfl) _
  | CBI | SBI => exact R.alike_assignIoBit _ _
  | IN =>
    exact (R.alike_imm _ 1).bind fun a => (R.alike_load _).bind fun b => (R.alike_reg _ 0).bind fun rd =>
      .thenNext fun m n h => h.write rd b
  | OUT =>
    exact (R.alike_reg _ 1).bind fun r => (R.alike_imm _ 0).bind fun a =>
      (R.alike_storeRegister _ r).bind fun _ => .pure _
  | LD | LDD =>
    refine (R.alike_reg _ 0).bind fun rd => (R.alike_ptr _ 1).bind fun ⟨p, mode⟩ => .get fun m n h => ?_
    rw [h.address]
    exact (R.alike_load _).bind fun b => .thenNext fun m n h => (h.updatePointer p _).write rd b
  | ST | STD =>
    refine (R.alike_ptr _ 0).bind fun ⟨p, mode⟩ => (R.alike_reg _ 1).bind fun r => .get fun m n h => ?_
    rw [h.address, h.register]
    exact (R.alike_store _ _).bind fun _ => .thenNext fun m n h => h.updatePointer p _
  | LDS =>
    exact (R.alike_imm _ 1).bind fun a => (R.alike_load _).bind fun b => (R.alike_reg _ 0).bind fun rd =>
      .thenNext fun m n h => h.write rd b
  | STS =>
    exact (R.alike_reg _ 1).bind fun r => (R.alike_imm _ 0).bind fun a =>
      (R.alike_storeRegister _ r).bind fun _ => .pure _
  | XCH =>
    refine (R.alike_reg _ 1).bind fun rd => .get fun m n h => ?_
    rw [h.pointer]
    exact (R.alike_load _).bind fun old => (R.alike_storeRegister _ rd).bind fun _ =>
      .thenNext fun m n h => h.write rd old
  | PUSH =>
    refine (R.alike_reg _ 0).bind fun r => .get fun m n h => ?_
    rw [h.register]
    exact (R.alike_push _).bind fun _ => .pure _
  | POP => exact R.alike_pop.bind fun b => (R.alike_reg _ 0).bind fun rd => .thenNext fun m n h => h.write rd b
  | RJMP => exact (R.alike_imm _ 0).bind fun k => (R.alike_relative k).bind fun _ => .pure _
  | JMP => exact (R.alike_imm _ 0).bind fun k => (R.alike_absolute k).bind fun _ => .pure _
  | IJMP =>
    refine .get fun m n h => ?_
    rw [h.pointer]
    exact (R.alike_absolute _).bind fun _ => .pure _
  | RCALL =>
    dsimp only
    split
    · exact R.alike_print.bind fun _ => .pure _
    · exact (R.alike_imm _ 0).bind fun k => (R.alike_relative k).bind fun target => R.alike_call _ _
  | CALL =>
    dsimp only
    split
    · exact R.alike_print.bind fun _ => .pure _
    · exact (R.alike_imm _ 0).bind fun k => (R.alike_absolute k).bind fun target => R.alike_call _ _
  | ICALL =>
    refine .get fun m n h => ?_
    rw [h.pointer]
    exact (R.alike_absolute _).bind fun target => R.alike_call _ _
  | RET =>
    refine .get fun m n h => ?_
    rw [h.sp]
    split
    · exact .pure _
    · exact R.alike_popReturn.bind fun _ => .pure _
  | RETI =>
    refine .get fun m n h => ?_
    rw [h.sp]
    split
    · exact .pure _
    · exact R.alike_popReturn.bind fun target => Alike.bind (fun m n h => .ok () (h.setFlag .I true)) fun _ => .pure _
  | BREAK | NOP | SLEEP | WDR => exact .pure _

/-! ## What instructions leave alone -/

/-- A machine beside itself, with what instructions leave alone as it is in `m₀`. -/
def framed (m₀ : Machine γ) : Parallel γ γ where
  Rel m n := n = m ∧ m₀.Frame m
  program h := by rw [h.1]
  memory h := by rw [h.1]
  pc h := by rw [h.1]
  withMemory h memory := by
    obtain ⟨rfl, h⟩ := h
    exact ⟨rfl, h.image, h.limit, h.pc, h.condition, h.counts, h.steps⟩
  emit h text := by
    obtain ⟨rfl, h⟩ := h
    exact ⟨rfl, h.withConsole _⟩

theorem counts_framed (m₀ : Machine γ) : (framed m₀).Counts := by
  rintro m _ ⟨rfl, h⟩ cycles
  exact ⟨rfl, h.countTaken cycles⟩

end Parallel

namespace Machine

variable [Console γ] {m m' : Machine γ} {i : Instruction}

theorem execute_ok_frame {c : Control} (h : execute i m = .ok c m') : m.Frame m' := by
  have hframe := (Parallel.framed m).alike_execute i (fun _ => Parallel.counts_framed m) m m ⟨rfl, .refl m⟩
  rw [h] at hframe
  cases hframe with
  | ok _ h' => exact h'.2

end Machine

end Avr

import Avr.Proofs.Machine.Inside
import Avr.Proofs.Machine.Transfer

/-!
# Admitted instructions are operations

* `Operand.register?`, `Operand.bit?`, `Operand.io?`, … : operands in range;
* `Instruction.operation?` : the operation of an instruction with operands in range;
* `Instruction.CanRaise` : which faults an instruction can raise;
* `Instruction.Does` : an instruction does what its operation does, on every machine that is inside flash;
* `does_combine`, `does_branch_named`, `does_load`, … : families of instructions;
* `exists_does` : every admitted instruction has an operation and does what it does.
-/

namespace Avr

open Catalog Machine

/-! ## Operands in range -/

namespace Operand

def register? : Operand → Option (Fin 32)
  | reg n => if h : n < 32 then some ⟨n, h⟩ else none
  | _ => none

def pair? : Operand → Option (Fin 31)
  | reg n => if h : n < 31 then some ⟨n, h⟩ else none
  | _ => none

theorem toNat_emod_eight_lt (v : Int) : (v % 8).toNat < 8 := by omega

def bit? : Operand → Option (Fin 8)
  | imm v => if 0 ≤ v ∧ v ≤ 7 then some ⟨(v % 8).toNat, toNat_emod_eight_lt v⟩ else none
  | _ => none

def io? : Operand → Option (Fin 64)
  | imm v => if h : 0 ≤ v ∧ v ≤ 63 then some ⟨v.toNat, by omega⟩ else none
  | _ => none

def direct? : Operand → Option Access
  | imm v => if h : 0 ≤ v ∧ v ≤ 65535 then some (.direct ⟨v.toNat, by omega⟩) else none
  | _ => none

def pointer? : Operand → Option Access
  | ptr p mode => if h : mode.displacement ≤ 63 then some (.pointer p mode h) else none
  | _ => none

def distance? : Operand → Option Target
  | imm k => if h : -2048 ≤ k ∧ k ≤ 2047 then some (.distance k h) else none
  | _ => none

def slot? : Operand → Option Target
  | imm k => if 0 ≤ k then some (.slot k.toNat) else none
  | _ => none

theorem register?_reg (r : Fin 32) : (reg r).register? = some r := dif_pos r.isLt

theorem pair?_reg (r : Fin 31) : (reg r).pair? = some r := dif_pos r.isLt

theorem io?_imm (a : Fin 64) : (imm a.val).io? = some a := dif_pos (by omega)

theorem direct?_imm (a : Fin 65536) : (imm a.val).direct? = some (.direct a) := dif_pos (by omega)

theorem pointer?_ptr {p : Pointer} {mode : PointerMode} (h : mode.displacement ≤ 63) :
    (ptr p mode).pointer? = some (.pointer p mode h) := dif_pos h

theorem distance?_imm {k : Int} (h : -2048 ≤ k ∧ k ≤ 2047) : (imm k).distance? = some (.distance k h) := dif_pos h

theorem slot?_imm (k : Nat) : (imm k).slot? = some (.slot k) := by
  rw [slot?, if_pos (Int.natCast_nonneg k), Int.toNat_natCast]

end Operand

/-! ## Operations of instructions -/

def one? {α : Type} (p : Operand → Option α) (f : α → Operation) : List Operand → Option Operation
  | [a] => do return f (← p a)
  | _ => none

def two? {α β : Type} (p : Operand → Option α) (q : Operand → Option β) (f : α → β → Operation) :
    List Operand → Option Operation
  | [a, b] => do return f (← p a) (← q b)
  | _ => none

theorem one?_eq {α : Type} {p : Operand → Option α} {f : α → Operation} {a : Operand} {x : α} (ha : p a = some x) :
    one? p f [a] = some (f x) := by
  rw [one?, ha]
  rfl

theorem two?_eq {α β : Type} {p : Operand → Option α} {q : Operand → Option β} {f : α → β → Operation} {a b : Operand}
    {x : α} {y : β} (ha : p a = some x) (hb : q b = some y) : two? p q f [a, b] = some (f x y) := by
  rw [two?, ha, hb]
  rfl

theorem exists_of_one? {α : Type} {p : Operand → Option α} {f : α → Operation} {ops : List Operand} {op : Operation}
    (h : one? p f ops = some op) : ∃ a x, ops = [a] ∧ p a = some x ∧ op = f x := by
  unfold one? at h
  split at h
  · obtain ⟨x, hx, h⟩ := Option.bind_eq_some_iff.1 h
    cases h
    exact ⟨_, x, rfl, hx, rfl⟩
  · cases h

theorem exists_of_two? {α β : Type} {p : Operand → Option α} {q : Operand → Option β} {f : α → β → Operation}
    {ops : List Operand} {op : Operation} (h : two? p q f ops = some op) :
    ∃ a b x y, ops = [a, b] ∧ p a = some x ∧ q b = some y ∧ op = f x y := by
  unfold two? at h
  split at h
  · obtain ⟨x, hx, h⟩ := Option.bind_eq_some_iff.1 h
    obtain ⟨y, hy, h⟩ := Option.bind_eq_some_iff.1 h
    cases h
    exact ⟨_, _, x, y, rfl, hx, hy, rfl⟩
  · cases h

def combine? (f : Byte → Byte → Bool → Bool → Alu.Result Byte) : List Operand → Option Operation :=
  two? Operand.register? Operand.register? fun d r => .combine d (.register r) f

def compare? (f : Byte → Byte → Bool → Bool → Alu.Result Byte) : List Operand → Option Operation :=
  two? Operand.register? Operand.register? fun d r => .compare d (.register r) f

def multiply? (f : Byte → Byte → Alu.Result Word) : List Operand → Option Operation :=
  two? Operand.register? Operand.register? fun d r => .multiply d r f

def combineImm? (f : Byte → Byte → Bool → Bool → Alu.Result Byte) : List Operand → Option Operation :=
  two? Operand.register? Operand.imm? fun d k => .combine d (.constant (BitVec.ofInt 8 k)) f

def modify? (f : Byte → Bool → Alu.Result Byte) : List Operand → Option Operation :=
  one? Operand.register? fun d => .modify d f

def combineWord? (f : Word → Word → Alu.Result Word) : List Operand → Option Operation :=
  two? Operand.pair? Operand.imm? fun d k => .combineWord d (BitVec.ofInt 16 k) f

def callOrPrint? (p : Operand → Option Target) (width : Fin 3) : List Operand → Option Operation
  | [.func _] => some .print
  | ops => one? p (fun t => .call t width) ops

/-- The operation of an instruction whose operands have the right shape and are in range. -/
def Instruction.operation? (i : Instruction) : Option Operation :=
  match i.mnemonic with
  | .ADD => combine? (fun d r _ _ => Alu.add d r false) i.operands
  | .ADC => combine? (fun d r c _ => Alu.add d r c) i.operands
  | .SUB => combine? (fun d r _ _ => Alu.sub d r false true) i.operands
  | .SBC => combine? (fun d r c z => Alu.sub d r c z) i.operands
  | .AND => combine? (fun d r _ _ => Alu.logic (d &&& r)) i.operands
  | .OR => combine? (fun d r _ _ => Alu.logic (d ||| r)) i.operands
  | .EOR => combine? (fun d r _ _ => Alu.logic (d ^^^ r)) i.operands
  | .CP => compare? (fun d r _ _ => Alu.sub d r false true) i.operands
  | .CPC => compare? (fun d r c z => Alu.sub d r c z) i.operands
  | .MUL => multiply? (fun d r => Alu.mul d r .unsigned) i.operands
  | .MULS => multiply? (fun d r => Alu.mul d r .signed) i.operands
  | .MULSU => multiply? (fun d r => Alu.mul d r .mixed) i.operands
  | .FMUL => multiply? (fun d r => Alu.fmul d r .unsigned) i.operands
  | .FMULS => multiply? (fun d r => Alu.fmul d r .signed) i.operands
  | .FMULSU => multiply? (fun d r => Alu.fmul d r .mixed) i.operands
  | .ANDI => combineImm? (fun d k _ _ => Alu.logic (d &&& k)) i.operands
  | .ORI | .SBR => combineImm? (fun d k _ _ => Alu.logic (d ||| k)) i.operands
  | .CBR => combineImm? (fun d k _ _ => Alu.logic (d &&& ~~~k)) i.operands
  | .SUBI => combineImm? (fun d k _ _ => Alu.sub d k false true) i.operands
  | .SBCI => combineImm? (fun d k c z => Alu.sub d k c z) i.operands
  | .ASR => modify? (fun d _ => Alu.asr d) i.operands
  | .COM => modify? (fun d _ => Alu.com d) i.operands
  | .DEC => modify? (fun d _ => Alu.dec d) i.operands
  | .INC => modify? (fun d _ => Alu.inc d) i.operands
  | .LSL => modify? (fun d _ => Alu.add d d false) i.operands
  | .LSR => modify? (fun d _ => Alu.lsr d) i.operands
  | .NEG => modify? (fun d _ => Alu.neg d) i.operands
  | .ROL => modify? (fun d c => Alu.add d d c) i.operands
  | .ROR => modify? (fun d c => Alu.ror d c) i.operands
  | .CLR => modify? (fun _ _ => Alu.logic 0) i.operands
  | .ADIW => combineWord? Alu.addWord i.operands
  | .SBIW => combineWord? Alu.subWord i.operands
  | .MOV => two? Operand.register? Operand.register? (fun d r => .assign d (.register r)) i.operands
  | .MOVW => two? Operand.pair? Operand.pair? .copyPair i.operands
  | .LDI => two? Operand.register? Operand.imm? (fun d k => .assign d (.constant (BitVec.ofInt 8 k))) i.operands
  | .CPI =>
    two? Operand.register? Operand.imm?
      (fun d k => .compare d (.constant (BitVec.ofInt 8 k)) fun d k _ _ => Alu.sub d k false true) i.operands
  | .SER => one? Operand.register? (fun d => .assign d (.constant 0xFF)) i.operands
  | .SWAP => one? Operand.register? .swap i.operands
  | .TST => one? Operand.register? (fun d => .compare d (.register d) fun d _ _ _ => Alu.logic d) i.operands
  | .BSET => one? Operand.bit? (fun n => .assignFlag (.ofIndex n) true) i.operands
  | .BCLR => one? Operand.bit? (fun n => .assignFlag (.ofIndex n) false) i.operands
  | .BST => two? Operand.register? Operand.bit? .storeBit i.operands
  | .BLD => two? Operand.register? Operand.bit? .loadBit i.operands
  | .BRBC => two? Operand.bit? Operand.distance? (fun n t => .branch (.ofIndex n) false t) i.operands
  | .BRBS => two? Operand.bit? Operand.distance? (fun n t => .branch (.ofIndex n) true t) i.operands
  | .CPSE => two? Operand.register? Operand.register? (fun d r => .skip (.equal d r)) i.operands
  | .SBRC => two? Operand.register? Operand.bit? (fun r n => .skip (.bit r n false)) i.operands
  | .SBRS => two? Operand.register? Operand.bit? (fun r n => .skip (.bit r n true)) i.operands
  | .SBIC => two? Operand.io? Operand.bit? (fun a n => .skip (.ioBit a n false)) i.operands
  | .SBIS => two? Operand.io? Operand.bit? (fun a n => .skip (.ioBit a n true)) i.operands
  | .CBI => two? Operand.io? Operand.bit? (fun a n => .assignIoBit a n false) i.operands
  | .SBI => two? Operand.io? Operand.bit? (fun a n => .assignIoBit a n true) i.operands
  | .IN => two? Operand.register? Operand.io? .input i.operands
  | .OUT => two? Operand.io? Operand.register? .output i.operands
  | .LD | .LDD => two? Operand.register? Operand.pointer? .load i.operands
  | .ST | .STD => two? Operand.pointer? Operand.register? .store i.operands
  | .LDS => two? Operand.register? Operand.direct? .load i.operands
  | .STS => two? Operand.direct? Operand.register? .store i.operands
  | .XCH => two? some Operand.register? (fun _ r => .exchange r) i.operands
  | .PUSH => one? Operand.register? .push i.operands
  | .POP => one? Operand.register? .pop i.operands
  | .RJMP => one? Operand.distance? .jump i.operands
  | .JMP => one? Operand.slot? .jump i.operands
  | .IJMP => some (.jump .indirect)
  | .RCALL => callOrPrint? Operand.distance? 1 i.operands
  | .CALL => callOrPrint? Operand.slot? 2 i.operands
  | .ICALL => some (.call .indirect 1)
  | .RET => some (.ret false)
  | .RETI => some (.ret true)
  | .BREAK => some .stop
  | .NOP | .SLEEP | .WDR => some .nothing
  | m =>
    match m.branchCondition?, m.flagEffect? with
    | some (b, v), _ => one? Operand.distance? (fun t => .branch b v t) i.operands
    | none, some (b, v) => some (.assignFlag b v)
    | none, none => none

/-! ## Faults by mnemonic -/

/-- The branches, jumps, calls and returns. -/
def Mnemonic.isTransfer (m : Mnemonic) : Bool :=
  m.branchCondition?.isSome || [BRBC, BRBS, RJMP, JMP, IJMP, RCALL, CALL, ICALL, RET, RETI].contains m

/-- Which faults an instruction can raise. -/
def Instruction.CanRaise (i : Instruction) : Fault → Prop
  | .stackOverflow _ => i.mnemonic ∈ [.PUSH, .CALL, .RCALL, .ICALL]
  | .stackUnderflow _ => i.mnemonic ∈ [.POP, .RET, .RETI]
  | .addressOutOfRange _ =>
    i.mnemonic ∈ [.LD, .LDD, .ST, .STD, .XCH, .LDS, .STS, .PUSH, .CALL, .RCALL, .ICALL]
  | .unterminatedString _ => i.mnemonic ∈ [.CALL, .RCALL] ∧ i.callsFunc = true
  | .jumpOutOfRange _ => i.mnemonic.isTransfer = true
  | .continuationExecuted _ | .malformedOperands _ | .stepLimit _ => False

/-- The instruction has an operation whose faults it can raise. On every machine inside flash it does what the
operation does, and all sums of addresses stay in their types. -/
structure Instruction.Does (i : Instruction) (op : Operation) : Prop where
  decoded : i.operation? = some op
  raises : ∀ f, op.Raises f → i.CanRaise f
  run : ∀ {γ : Type} [Console γ] (m : Machine γ), m.Inside → op.run m = some (execute i m)

variable {mn : Mnemonic} {ops : List Operand} {o : String} {l : Nat} {c c' : Constraint}

/-! ## Arithmetic -/

theorem exists_register (ha : Admitted mn ops) (hargs : mn.entry.args = [⟨[.reg], c⟩]) (hc : c.within 0 31 = true) :
    ∃ d : Fin 32, ops = [.reg d] := by
  obtain ⟨op, rfl, hop⟩ := exists_of_admits_one hargs ha
  obtain ⟨d, rfl⟩ := hop.registerUpTo 31 hc
  exact ⟨d, rfl⟩

theorem exists_registers (ha : Admitted mn ops) (hargs : mn.entry.args = [⟨[.reg], c⟩, ⟨[.reg], c'⟩])
    (hc : c.within 0 31 = true) (hc' : c'.within 0 31 = true) : ∃ d r : Fin 32, ops = [.reg d, .reg r] := by
  obtain ⟨op, op', rfl, hop, hop'⟩ := exists_of_admits_two hargs ha
  obtain ⟨d, rfl⟩ := hop.registerUpTo 31 hc
  obtain ⟨r, rfl⟩ := hop'.registerUpTo 31 hc'
  exact ⟨d, r, rfl⟩

theorem exists_register_constant (ha : Admitted mn ops) (hargs : mn.entry.args = [⟨[.reg], c⟩, ⟨[.int], c'⟩])
    (hc : c.within 0 31 = true) : ∃ (d : Fin 32) (k : Int), ops = [.reg d, .imm k] := by
  obtain ⟨op, op', rfl, hop, hop'⟩ := exists_of_admits_two hargs ha
  obtain ⟨d, rfl⟩ := hop.registerUpTo 31 hc
  obtain ⟨k, rfl, -⟩ := hop'.int
  exact ⟨d, k, rfl⟩

theorem does_combine {f : Byte → Byte → Bool → Bool → Alu.Result Byte} (ha : Admitted mn ops)
    (hargs : mn.entry.args = [Place.reg, Place.reg]) (hop : Instruction.operation? ⟨mn, ops, o, l⟩ = combine? f ops)
    (h : ∀ {γ : Type} [Console γ], execute ⟨mn, ops, o, l⟩ = (combine ⟨mn, ops, o, l⟩ f : Exec γ Control)) :
    ∃ op, Instruction.Does ⟨mn, ops, o, l⟩ op := by
  obtain ⟨d, r, rfl⟩ := exists_registers ha hargs rfl rfl
  refine ⟨.combine d (.register r) f, ?_, fun _ => False.elim, fun m _ => ?_⟩
  · rw [hop]
    exact two?_eq (Operand.register?_reg d) (Operand.register?_reg r)
  · rw [h]
    rfl

theorem does_compare {f : Byte → Byte → Bool → Bool → Alu.Result Byte} (ha : Admitted mn ops)
    (hargs : mn.entry.args = [Place.reg, Place.reg]) (hop : Instruction.operation? ⟨mn, ops, o, l⟩ = compare? f ops)
    (h : ∀ {γ : Type} [Console γ], execute ⟨mn, ops, o, l⟩ = (Machine.compare ⟨mn, ops, o, l⟩ f : Exec γ Control)) :
    ∃ op, Instruction.Does ⟨mn, ops, o, l⟩ op := by
  obtain ⟨d, r, rfl⟩ := exists_registers ha hargs rfl rfl
  refine ⟨.compare d (.register r) f, ?_, fun _ => False.elim, fun m _ => ?_⟩
  · rw [hop]
    exact two?_eq (Operand.register?_reg d) (Operand.register?_reg r)
  · rw [h]
    rfl

theorem does_multiply {f : Byte → Byte → Alu.Result Word} (ha : Admitted mn ops)
    (hargs : mn.entry.args = [⟨[.reg], c⟩, ⟨[.reg], c'⟩]) (hc : c.within 0 31 = true) (hc' : c'.within 0 31 = true)
    (hop : Instruction.operation? ⟨mn, ops, o, l⟩ = multiply? f ops)
    (h : ∀ {γ : Type} [Console γ], execute ⟨mn, ops, o, l⟩ = (multiply ⟨mn, ops, o, l⟩ f : Exec γ Control)) :
    ∃ op, Instruction.Does ⟨mn, ops, o, l⟩ op := by
  obtain ⟨d, r, rfl⟩ := exists_registers ha hargs hc hc'
  refine ⟨.multiply d r f, ?_, fun _ => False.elim, fun m _ => ?_⟩
  · rw [hop]
    exact two?_eq (Operand.register?_reg d) (Operand.register?_reg r)
  · rw [h]
    rfl

theorem does_combineImm {f : Byte → Byte → Bool → Bool → Alu.Result Byte} (ha : Admitted mn ops)
    (hargs : mn.entry.args = [Place.upperReg, Place.byte])
    (hop : Instruction.operation? ⟨mn, ops, o, l⟩ = combineImm? f ops)
    (h : ∀ {γ : Type} [Console γ], execute ⟨mn, ops, o, l⟩ = (combineImm ⟨mn, ops, o, l⟩ f : Exec γ Control)) :
    ∃ op, Instruction.Does ⟨mn, ops, o, l⟩ op := by
  obtain ⟨d, k, rfl⟩ := exists_register_constant ha hargs rfl
  refine ⟨.combine d (.constant (BitVec.ofInt 8 k)) f, ?_, fun _ => False.elim, fun m _ => ?_⟩
  · rw [hop]
    exact two?_eq (Operand.register?_reg d) rfl
  · rw [h]
    rfl

theorem does_modify {f : Byte → Bool → Alu.Result Byte} (ha : Admitted mn ops) (hargs : mn.entry.args = [Place.reg])
    (hop : Instruction.operation? ⟨mn, ops, o, l⟩ = modify? f ops)
    (h : ∀ {γ : Type} [Console γ], execute ⟨mn, ops, o, l⟩ = (modifyRegister ⟨mn, ops, o, l⟩ f : Exec γ Control)) :
    ∃ op, Instruction.Does ⟨mn, ops, o, l⟩ op := by
  obtain ⟨d, rfl⟩ := exists_register ha hargs rfl
  refine ⟨.modify d f, ?_, fun _ => False.elim, fun m _ => ?_⟩
  · rw [hop]
    exact one?_eq (Operand.register?_reg d)
  · rw [h]
    rfl

theorem does_combineWord {f : Word → Word → Alu.Result Word} (ha : Admitted mn ops)
    (hargs : mn.entry.args = [Place.wordReg, Place.sixBits])
    (hop : Instruction.operation? ⟨mn, ops, o, l⟩ = combineWord? f ops)
    (h : ∀ {γ : Type} [Console γ], execute ⟨mn, ops, o, l⟩ = (combineWord ⟨mn, ops, o, l⟩ f : Exec γ Control)) :
    ∃ op, Instruction.Does ⟨mn, ops, o, l⟩ op := by
  obtain ⟨op, op', rfl, hreg, hk⟩ := exists_of_admits_two hargs ha
  obtain ⟨d, rfl⟩ := hreg.registerUpTo 30 rfl
  obtain ⟨k, rfl, -⟩ := hk.int
  refine ⟨.combineWord d (BitVec.ofInt 16 k) f, ?_, fun _ => False.elim, fun m _ => ?_⟩
  · rw [hop]
    exact two?_eq (Operand.pair?_reg d) rfl
  · rw [h]
    rfl

/-! ## Bits -/

theorem exists_bit {op : Operand} (h : Place.bit.Admits op) :
    ∃ (v : Int) (n : Fin 8), op = .imm v ∧ op.bit? = some n ∧ (v % 8).toNat = n := by
  obtain ⟨v, rfl, hv⟩ := h.int
  exact ⟨v, _, rfl, if_pos (admitsValue_range.1 hv), rfl⟩

theorem exists_lowIo {op : Operand} (h : Place.lowIo.Admits op) : ∃ a : Fin 64, op = .imm a.val := by
  obtain ⟨a, rfl⟩ := h.numberUpTo 31 rfl
  exact ⟨a.castLE (by decide), rfl⟩

theorem does_flag {b : StatusBit} {v : Bool} (h : mn.flagEffect? = some (b, v)) :
    ∃ op, Instruction.Does ⟨mn, ops, o, l⟩ op := by
  refine ⟨.assignFlag b v, ?_, fun _ => False.elim, fun m _ => ?_⟩
  · cases mn <;> cases h <;> rfl
  · cases mn <;> cases h <;> rfl

theorem does_skip_bit {v : Bool} (ha : Admitted mn ops) (hargs : mn.entry.args = [Place.reg, Place.bit])
    (hop : Instruction.operation? ⟨mn, ops, o, l⟩ =
      two? Operand.register? Operand.bit? (fun r n => .skip (.bit r n v)) ops)
    (h : ∀ {γ : Type} [Console γ] (r : Nat) (n : Int) (m : Machine γ), execute ⟨mn, [.reg r, .imm n], o, l⟩ m =
      (skip ((m.register r).getLsbD (n % 8).toNat == v) : Exec γ Control) m) :
    ∃ op, Instruction.Does ⟨mn, ops, o, l⟩ op := by
  obtain ⟨op, op', rfl, hreg, hbit⟩ := exists_of_admits_two hargs ha
  obtain ⟨r, rfl⟩ := hreg.registerUpTo 31 rfl
  obtain ⟨k, n, rfl, hn, hk⟩ := exists_bit hbit
  refine ⟨.skip (.bit r n v), ?_, fun _ => False.elim, fun m hm => ?_⟩
  · rw [hop]
    exact two?_eq (Operand.register?_reg r) hn
  · rw [h, hk, ← run_skip hm]
    rfl

theorem does_skip_ioBit {v : Bool} (ha : Admitted mn ops) (hargs : mn.entry.args = [Place.lowIo, Place.bit])
    (hop : Instruction.operation? ⟨mn, ops, o, l⟩ =
      two? Operand.io? Operand.bit? (fun a n => .skip (.ioBit a n v)) ops)
    (h : ∀ {γ : Type} [Console γ] (a n : Int), execute ⟨mn, [.imm a, .imm n], o, l⟩ =
      ((load (ioAddressOf a) >>= fun b => skip (b.getLsbD (n % 8).toNat == v)) : Exec γ Control)) :
    ∃ op, Instruction.Does ⟨mn, ops, o, l⟩ op := by
  obtain ⟨op, op', rfl, hio, hbit⟩ := exists_of_admits_two hargs ha
  obtain ⟨a, rfl⟩ := exists_lowIo hio
  obtain ⟨k, n, rfl, hn, hk⟩ := exists_bit hbit
  refine ⟨.skip (.ioBit a n v), ?_, fun _ => False.elim, fun m hm => ?_⟩
  · rw [hop]
    exact two?_eq (Operand.io?_imm a) hn
  · rw [h, hk, run_skip_ioBit hm]

theorem does_assignIoBit {v : Bool} (ha : Admitted mn ops) (hargs : mn.entry.args = [Place.lowIo, Place.bit])
    (hop : Instruction.operation? ⟨mn, ops, o, l⟩ =
      two? Operand.io? Operand.bit? (fun a n => .assignIoBit a n v) ops)
    (h : ∀ {γ : Type} [Console γ], execute ⟨mn, ops, o, l⟩ = (assignIoBit ⟨mn, ops, o, l⟩ v : Exec γ Control)) :
    ∃ op, Instruction.Does ⟨mn, ops, o, l⟩ op := by
  obtain ⟨op, op', rfl, hio, hbit⟩ := exists_of_admits_two hargs ha
  obtain ⟨a, rfl⟩ := exists_lowIo hio
  obtain ⟨k, n, rfl, hn, hk⟩ := exists_bit hbit
  refine ⟨.assignIoBit a n v, ?_, fun _ => False.elim, fun m _ => ?_⟩
  · rw [hop]
    exact two?_eq (Operand.io?_imm a) hn
  · rw [h, run_assignIoBit, ← hk]
    rfl

/-! ## Branches, jumps and calls -/

theorem does_branch_named {b : StatusBit} {v : Bool} (hb : mn.branchCondition? = some (b, v)) (ha : Admitted mn ops) :
    ∃ op, Instruction.Does ⟨mn, ops, o, l⟩ op := by
  obtain ⟨op, rfl, hdistance⟩ := exists_of_admits_one (args_branch hb).1 ha
  obtain ⟨k, rfl, hk⟩ := hdistance.int
  have hrange := admitsValue_range.1 hk
  have hreach : -2048 ≤ k ∧ k ≤ 2047 := by omega
  refine ⟨.branch b v (.distance k hreach), ?_, fun f hf => ?_, fun m hm => ?_⟩
  · have hop : Instruction.operation? ⟨mn, [.imm k], o, l⟩ =
        one? Operand.distance? (fun t => .branch b v t) [.imm k] := by
      cases mn <;> cases hb <;> rfl
    rw [hop, one?_eq (Operand.distance?_imm hreach)]
  · cases f with
    | jumpOutOfRange _ => simp [Instruction.CanRaise, Mnemonic.isTransfer, hb]
    | _ => exact hf.elim
  · rw [execute_named hb]
    exact run_branch hm b v hreach

theorem does_branch_bit (v : Bool) (ha : Admitted (branchMnemonic v) ops) :
    ∃ op, Instruction.Does ⟨branchMnemonic v, ops, o, l⟩ op := by
  have hargs : (branchMnemonic v).entry.args = [Place.bit, Place.near] := by cases v <;> rfl
  obtain ⟨op, op', rfl, hbit, hdistance⟩ := exists_of_admits_two hargs ha
  obtain ⟨b, rfl⟩ := exists_of_admits_bit hbit
  obtain ⟨k, rfl, hk⟩ := hdistance.int
  have hrange := admitsValue_range.1 hk
  have hreach : -2048 ≤ k ∧ k ≤ 2047 := by omega
  refine ⟨.branch b v (.distance k hreach), ?_, fun f hf => ?_, fun m hm => ?_⟩
  · have hop : ∀ v, Instruction.operation? ⟨branchMnemonic v, [.imm b.index, .imm k], o, l⟩ =
        two? Operand.bit? Operand.distance? (fun n t => .branch (.ofIndex n) v t) [.imm b.index, .imm k] := by
      intro v
      cases v <;> rfl
    have hindex : ∃ n : Fin 8, (Operand.imm b.index).bit? = some n ∧ StatusBit.ofIndex n = b := by
      cases b <;> exact ⟨_, rfl, rfl⟩
    obtain ⟨n, hn, hb⟩ := hindex
    rw [hop, two?_eq hn (Operand.distance?_imm hreach), hb]
  · cases f with
    | jumpOutOfRange _ => cases v <;> rfl
    | _ => exact hf.elim
  · rw [execute_bit]
    exact run_branch hm b v hreach

theorem does_rjmp (ha : Admitted .RJMP ops) : ∃ op, Instruction.Does ⟨.RJMP, ops, o, l⟩ op := by
  obtain ⟨op, rfl, hop⟩ := exists_of_admits_one rfl ha
  obtain ⟨k, rfl, hk⟩ := hop.int
  have hreach := admitsValue_range.1 hk
  refine ⟨.jump (.distance k hreach), one?_eq (Operand.distance?_imm hreach), fun f hf => ?_, fun m hm => ?_⟩
  · cases f with
    | jumpOutOfRange _ => rfl
    | _ => exact hf.elim
  · rw [Operation.run, place?_distance hm, Option.map_some, ← run_jump]
    rfl

theorem does_jmp (ha : Admitted .JMP ops) : ∃ op, Instruction.Does ⟨.JMP, ops, o, l⟩ op := by
  obtain ⟨op, rfl, hop⟩ := exists_of_admits_one rfl ha
  obtain ⟨k, rfl⟩ := hop.numberUpTo 4194303 rfl
  refine ⟨.jump (.slot k), one?_eq (Operand.slot?_imm k), fun f hf => ?_, fun {γ} _ m hm => ?_⟩
  · cases f with
    | jumpOutOfRange _ => rfl
    | _ => exact hf.elim
  · have hrun : ∀ k : Int, execute ⟨.JMP, [.imm k], o, l⟩ =
        ((absolute k >>= fun target => pure (.jump target)) : Exec γ Control) := fun _ => rfl
    rw [Operation.run, Target.place?, Option.map_some, hrun, run_jump]

theorem does_ijmp : ∃ op, Instruction.Does ⟨.IJMP, ops, o, l⟩ op := by
  refine ⟨.jump .indirect, rfl, fun f hf => ?_, fun {γ} _ m hm => ?_⟩
  · cases f with
    | jumpOutOfRange _ => rfl
    | _ => exact hf.elim
  · have hrun : execute ⟨.IJMP, ops, o, l⟩ = ((get >>= fun m => absolute (m.pointer .Z).toNat >>= fun target =>
        pure (.jump target)) : Exec γ Control) := rfl
    rw [Operation.run, Target.place?, Option.map_some, hrun, bind_run_ok (get_run m), run_jump]

theorem canRaise_call {i : Instruction} (hi : i.mnemonic = .RCALL ∨ i.mnemonic = .CALL ∨ i.mnemonic = .ICALL)
    {t : Target} {width : Fin 3} {f : Fault} (hf : (Operation.call t width).Raises f) : i.CanRaise f := by
  cases f with
  | jumpOutOfRange _ => rcases hi with h | h | h <;> simp [Instruction.CanRaise, h, Mnemonic.isTransfer]
  | stackOverflow _ | addressOutOfRange _ => rcases hi with h | h | h <;> simp [Instruction.CanRaise, h]
  | _ => exact hf.elim

theorem does_print (f : PseudoFunc) (hmn : mn = .RCALL ∨ mn = .CALL) :
    Instruction.Does ⟨mn, [.func f], o, l⟩ .print where
  decoded := by rcases hmn with rfl | rfl <;> rfl
  raises f hf := by
    cases f with
    | addressOutOfRange _ => rcases hmn with rfl | rfl <;> simp [Instruction.CanRaise]
    | unterminatedString _ => rcases hmn with rfl | rfl <;> simp [Instruction.CanRaise, Instruction.callsFunc]
    | _ => exact hf.elim
  run m _ := by
    rcases hmn with rfl | rfl
    · exact run_print m
    · exact run_print m

theorem does_rcall (ha : Admitted .RCALL ops) : ∃ op, Instruction.Does ⟨.RCALL, ops, o, l⟩ op := by
  obtain ⟨op, rfl, hop⟩ := exists_of_admits_one rfl ha
  obtain ⟨f, rfl⟩ | ⟨k, rfl, hk⟩ := hop.intOrFunc
  · exact ⟨.print, does_print f (.inl rfl)⟩
  · have hreach := admitsValue_range.1 hk
    refine ⟨.call (.distance k hreach) 1, one?_eq (Operand.distance?_imm hreach),
      fun f hf => canRaise_call (.inl rfl) hf, fun m hm => ?_⟩
    rw [Operation.run, place?_distance hm, Option.bind_some, run_call hm]
    rfl

theorem does_call (ha : Admitted .CALL ops) : ∃ op, Instruction.Does ⟨.CALL, ops, o, l⟩ op := by
  obtain ⟨op, rfl, hop⟩ := exists_of_admits_one rfl ha
  obtain ⟨f, rfl⟩ | ⟨k, rfl, hk⟩ := hop.intOrFunc
  · exact ⟨.print, does_print f (.inr rfl)⟩
  · obtain ⟨n, rfl⟩ := Int.eq_ofNat_of_zero_le (admitsValue_range.1 hk).1
    refine ⟨.call (.slot n) 2, one?_eq (Operand.slot?_imm n), fun f hf => canRaise_call (.inr (.inl rfl)) hf,
      fun {γ} _ m hm => ?_⟩
    have hrun : ∀ k : Int, execute ⟨.CALL, [.imm k], o, l⟩ =
        ((absolute k >>= fun target => call target 2) : Exec γ Control) := fun _ => rfl
    rw [Operation.run, Target.place?, Option.bind_some, run_call hm, hrun]
    rfl

theorem does_icall : ∃ op, Instruction.Does ⟨.ICALL, ops, o, l⟩ op := by
  refine ⟨.call .indirect 1, rfl, fun f hf => canRaise_call (.inr (.inr rfl)) hf, fun {γ} _ m hm => ?_⟩
  have hrun : execute ⟨.ICALL, ops, o, l⟩ = ((get >>= fun m => absolute (m.pointer .Z).toNat >>= fun target =>
      call target 1) : Exec γ Control) := rfl
  rw [Operation.run, Target.place?, Option.bind_some, run_call hm, hrun, bind_run_ok (get_run m)]
  rfl

theorem does_ret (hmn : mn = .RET ∨ mn = .RETI) : ∃ op, Instruction.Does ⟨mn, ops, o, l⟩ op := by
  have hraises : ∀ enable f, (Operation.ret enable).Raises f → Instruction.CanRaise ⟨mn, ops, o, l⟩ f := by
    intro enable f hf
    cases f with
    | jumpOutOfRange _ => rcases hmn with rfl | rfl <;> rfl
    | stackUnderflow _ => rcases hmn with rfl | rfl <;> simp [Instruction.CanRaise]
    | _ => exact hf.elim
  rcases hmn with rfl | rfl
  · exact ⟨.ret false, rfl, hraises false, fun m _ => run_ret false m⟩
  · exact ⟨.ret true, rfl, hraises true, fun m _ => run_ret true m⟩

/-! ## Data memory -/

theorem exists_pointer {s : ArgSpec} {op : Operand} (hs : s = Place.pointer ∨ s = Place.pointerDisp) (h : s.Admits op) :
    ∃ p mode, op = .ptr p mode ∧ mode.displacement ≤ 63 := by
  rcases hs with rfl | rfl
  · obtain ⟨p, mode, rfl, hmode⟩ := h.pointer
    refine ⟨p, mode, rfl, ?_⟩
    cases mode with
    | disp q => exact absurd rfl (hmode q)
    | _ => exact Nat.zero_le 63
  · obtain ⟨p, q, rfl, -, hq⟩ := h.pointerDisp
    exact ⟨p, .disp q, rfl, hq⟩

theorem does_load {s : ArgSpec} (hs : s = Place.pointer ∨ s = Place.pointerDisp) (ha : Admitted mn ops)
    (hargs : mn.entry.args = [Place.reg, s]) (hmn : mn = .LD ∨ mn = .LDD) :
    ∃ op, Instruction.Does ⟨mn, ops, o, l⟩ op := by
  obtain ⟨op, op', rfl, hreg, hptr⟩ := exists_of_admits_two hargs ha
  obtain ⟨d, rfl⟩ := hreg.registerUpTo 31 rfl
  obtain ⟨p, mode, rfl, hmode⟩ := exists_pointer hs hptr
  refine ⟨.load d (.pointer p mode hmode), ?_, fun f hf => ?_, fun m _ => ?_⟩
  · have hop := two?_eq (f := .load) (Operand.register?_reg d) (Operand.pointer?_ptr (p := p) hmode)
    rcases hmn with rfl | rfl <;> exact hop
  · cases f with
    | addressOutOfRange _ => rcases hmn with rfl | rfl <;> simp [Instruction.CanRaise]
    | _ => exact hf.elim
  · have hrun : (execute ⟨mn, [.reg d, .ptr p mode], o, l⟩ : Exec _ Control) m =
        ((load (m.address p mode).1 >>= fun b => thenNext fun m' =>
          (m'.updatePointer p (m.address p mode).2).write d b) : Exec _ Control) m := by
      rcases hmn with rfl | rfl <;> rfl
    rw [Operation.run, address?_pointer, Option.map_some, hrun,
      run_load _ fun b m' => (m'.updatePointer p (m.address p mode).2).write d b]
    rfl

theorem does_store {s : ArgSpec} (hs : s = Place.pointer ∨ s = Place.pointerDisp) (ha : Admitted mn ops)
    (hargs : mn.entry.args = [s, Place.reg]) (hmn : mn = .ST ∨ mn = .STD) :
    ∃ op, Instruction.Does ⟨mn, ops, o, l⟩ op := by
  obtain ⟨op, op', rfl, hptr, hreg⟩ := exists_of_admits_two hargs ha
  obtain ⟨p, mode, rfl, hmode⟩ := exists_pointer hs hptr
  obtain ⟨r, rfl⟩ := hreg.registerUpTo 31 rfl
  refine ⟨.store (.pointer p mode hmode) r, ?_, fun f hf => ?_, fun m _ => ?_⟩
  · have hop := two?_eq (f := .store) (Operand.pointer?_ptr (p := p) hmode) (Operand.register?_reg r)
    rcases hmn with rfl | rfl <;> exact hop
  · cases f with
    | addressOutOfRange _ => rcases hmn with rfl | rfl <;> simp [Instruction.CanRaise]
    | _ => exact hf.elim
  · have hrun : (execute ⟨mn, [.ptr p mode, .reg r], o, l⟩ : Exec _ Control) m =
        ((store (m.address p mode).1 (m.register r) >>= fun _ => thenNext fun m' =>
          m'.updatePointer p (m.address p mode).2) : Exec _ Control) m := by
      rcases hmn with rfl | rfl <;> rfl
    rw [Operation.run, address?_pointer, Option.map_some, hrun,
      run_store _ _ fun m' => m'.updatePointer p (m.address p mode).2]
    rfl

theorem does_lds (ha : Admitted .LDS ops) : ∃ op, Instruction.Does ⟨.LDS, ops, o, l⟩ op := by
  obtain ⟨op, op', rfl, hreg, hk⟩ := exists_of_admits_two rfl ha
  obtain ⟨d, rfl⟩ := hreg.registerUpTo 31 rfl
  obtain ⟨a, rfl⟩ := hk.numberUpTo 65535 rfl
  refine ⟨.load d (.direct a), two?_eq (Operand.register?_reg d) (Operand.direct?_imm a), fun f hf => ?_,
    fun {γ} _ m _ => ?_⟩
  · cases f with
    | addressOutOfRange _ => simp [Instruction.CanRaise]
    | _ => exact hf.elim
  · have hrun : ∀ k : Int, execute ⟨.LDS, [.reg d, .imm k], o, l⟩ =
        ((load (addressOf k) >>= fun b => thenNext fun m => m.write d b) : Exec γ Control) := fun _ => rfl
    rw [Operation.run, Access.address?, Option.map_some, hrun, addressOf_natCast, run_load a fun b m => m.write d b]
    rfl

theorem does_sts (ha : Admitted .STS ops) : ∃ op, Instruction.Does ⟨.STS, ops, o, l⟩ op := by
  obtain ⟨op, op', rfl, hk, hreg⟩ := exists_of_admits_two rfl ha
  obtain ⟨a, rfl⟩ := hk.numberUpTo 65535 rfl
  obtain ⟨r, rfl⟩ := hreg.registerUpTo 31 rfl
  refine ⟨.store (.direct a) r, two?_eq (Operand.direct?_imm a) (Operand.register?_reg r), fun f hf => ?_,
    fun {γ} _ m _ => ?_⟩
  · cases f with
    | addressOutOfRange _ => simp [Instruction.CanRaise]
    | _ => exact hf.elim
  · have hrun : ∀ k : Int, execute ⟨.STS, [.imm k, .reg r], o, l⟩ = ((get >>= fun m =>
        store (addressOf k) (m.register r) >>= fun _ => thenNext fun m => m) : Exec γ Control) := fun _ => rfl
    rw [Operation.run, Access.address?, Option.map_some, hrun, addressOf_natCast, bind_run_ok (get_run m),
      run_store a _ fun m => m]
    rfl

theorem does_exchange (ha : Admitted .XCH ops) : ∃ op, Instruction.Does ⟨.XCH, ops, o, l⟩ op := by
  obtain ⟨op, op', rfl, hptr, hreg⟩ := exists_of_admits_two rfl ha
  obtain rfl := hptr.pointerZ
  obtain ⟨r, rfl⟩ := hreg.registerUpTo 31 rfl
  refine ⟨.exchange r, two?_eq rfl (Operand.register?_reg r), fun f hf => ?_, fun m _ => run_exchange r m⟩
  cases f with
  | addressOutOfRange _ => simp [Instruction.CanRaise]
  | _ => exact hf.elim

theorem does_push (ha : Admitted .PUSH ops) : ∃ op, Instruction.Does ⟨.PUSH, ops, o, l⟩ op := by
  obtain ⟨r, rfl⟩ := exists_register ha rfl rfl
  refine ⟨.push r, one?_eq (Operand.register?_reg r), fun f hf => ?_, fun m _ => run_push (m.register r) m⟩
  cases f with
  | stackOverflow _ | addressOutOfRange _ => simp [Instruction.CanRaise]
  | _ => exact hf.elim

theorem does_pop (ha : Admitted .POP ops) : ∃ op, Instruction.Does ⟨.POP, ops, o, l⟩ op := by
  obtain ⟨d, rfl⟩ := exists_register ha rfl rfl
  refine ⟨.pop d, one?_eq (Operand.register?_reg d), fun f hf => ?_, fun m _ => run_pop d m⟩
  cases f with
  | stackUnderflow _ => simp [Instruction.CanRaise]
  | _ => exact hf.elim

/-! ## All instructions -/

/-- Every admitted instruction has an operation and does what it does. -/
theorem exists_does {i : Instruction} (ha : Admitted i.mnemonic i.operands) : ∃ op, i.Does op := by
  obtain ⟨mn, ops, o, l⟩ := i
  dsimp only at ha
  cases mn with
  | ADD | ADC | SUB | SBC | AND | OR | EOR => exact does_combine ha rfl rfl rfl
  | CP | CPC => exact does_compare ha rfl rfl rfl
  | MUL | MULS | MULSU | FMUL | FMULS | FMULSU => exact does_multiply ha rfl rfl rfl rfl rfl
  | ANDI | ORI | SBR | CBR | SUBI | SBCI => exact does_combineImm ha rfl rfl rfl
  | ASR | COM | DEC | INC | LSL | LSR | NEG | ROL | ROR | CLR => exact does_modify ha rfl rfl rfl
  | ADIW | SBIW => exact does_combineWord ha rfl rfl rfl
  | MOV =>
    obtain ⟨d, r, rfl⟩ := exists_registers ha rfl rfl rfl
    exact ⟨_, two?_eq (Operand.register?_reg d) (Operand.register?_reg r), fun _ => False.elim, fun m _ => rfl⟩
  | MOVW =>
    obtain ⟨op, op', rfl, hd, hr⟩ := exists_of_admits_two rfl ha
    obtain ⟨d, rfl⟩ := hd.registerUpTo 30 rfl
    obtain ⟨r, rfl⟩ := hr.registerUpTo 30 rfl
    exact ⟨_, two?_eq (Operand.pair?_reg d) (Operand.pair?_reg r), fun _ => False.elim, fun m _ => rfl⟩
  | LDI | CPI =>
    obtain ⟨d, k, rfl⟩ := exists_register_constant ha rfl rfl
    exact ⟨_, two?_eq (Operand.register?_reg d) rfl, fun _ => False.elim, fun m _ => rfl⟩
  | SER | SWAP | TST =>
    obtain ⟨d, rfl⟩ := exists_register ha rfl rfl
    exact ⟨_, one?_eq (Operand.register?_reg d), fun _ => False.elim, fun m _ => rfl⟩
  | SEC | SEZ | SEN | SEV | SES | SEH | SET | SEI | CLC | CLZ | CLN | CLV | CLS | CLH | CLT | CLI => exact does_flag rfl
  | BSET | BCLR =>
    obtain ⟨op, rfl, hbit⟩ := exists_of_admits_one rfl ha
    obtain ⟨k, n, rfl, hn, hk⟩ := exists_bit hbit
    refine ⟨_, one?_eq hn, fun _ => False.elim, fun m _ => ?_⟩
    rw [← hk]
    rfl
  | BST | BLD =>
    obtain ⟨op, op', rfl, hreg, hbit⟩ := exists_of_admits_two rfl ha
    obtain ⟨r, rfl⟩ := hreg.registerUpTo 31 rfl
    obtain ⟨k, n, rfl, hn, hk⟩ := exists_bit hbit
    refine ⟨_, two?_eq (Operand.register?_reg r) hn, fun _ => False.elim, fun m _ => ?_⟩
    rw [Operation.run, ← hk]
    rfl
  | CPSE =>
    obtain ⟨d, r, rfl⟩ := exists_registers ha rfl rfl rfl
    exact ⟨_, two?_eq (Operand.register?_reg d) (Operand.register?_reg r), fun _ => False.elim,
      fun m hm => run_skip hm (m.register d == m.register r)⟩
  | SBRC => exact does_skip_bit (v := false) ha rfl rfl fun r n m => by rw [beq_false]; rfl
  | SBRS => exact does_skip_bit (v := true) ha rfl rfl fun r n m => by rw [beq_true]; rfl
  | SBIC => exact does_skip_ioBit (v := false) ha rfl rfl fun a n => by simp only [beq_false]; rfl
  | SBIS => exact does_skip_ioBit (v := true) ha rfl rfl fun a n => by simp only [beq_true]; rfl
  | CBI | SBI => exact does_assignIoBit ha rfl rfl rfl
  | IN =>
    obtain ⟨op, op', rfl, hreg, hio⟩ := exists_of_admits_two rfl ha
    obtain ⟨d, rfl⟩ := hreg.registerUpTo 31 rfl
    obtain ⟨a, rfl⟩ := hio.numberUpTo 63 rfl
    exact ⟨_, two?_eq (Operand.register?_reg d) (Operand.io?_imm a), fun _ => False.elim, fun m _ => run_input m d a⟩
  | OUT =>
    obtain ⟨op, op', rfl, hio, hreg⟩ := exists_of_admits_two rfl ha
    obtain ⟨a, rfl⟩ := hio.numberUpTo 63 rfl
    obtain ⟨r, rfl⟩ := hreg.registerUpTo 31 rfl
    exact ⟨_, two?_eq (Operand.io?_imm a) (Operand.register?_reg r), fun _ => False.elim, fun m _ => run_output m a r⟩
  | BRCC | BRSH | BRCS | BRLO | BRNE | BREQ | BRPL | BRMI | BRVC | BRVS | BRGE | BRLT | BRHC | BRHS | BRTC | BRTS
  | BRID | BRIE => exact does_branch_named rfl ha
  | BRBC => exact does_branch_bit false ha
  | BRBS => exact does_branch_bit true ha
  | RJMP => exact does_rjmp ha
  | JMP => exact does_jmp ha
  | IJMP => exact does_ijmp
  | RCALL => exact does_rcall ha
  | CALL => exact does_call ha
  | ICALL => exact does_icall
  | RET => exact does_ret (.inl rfl)
  | RETI => exact does_ret (.inr rfl)
  | LD => exact does_load (.inl rfl) ha rfl (.inl rfl)
  | LDD => exact does_load (.inr rfl) ha rfl (.inr rfl)
  | ST => exact does_store (.inl rfl) ha rfl (.inl rfl)
  | STD => exact does_store (.inr rfl) ha rfl (.inr rfl)
  | LDS => exact does_lds ha
  | STS => exact does_sts ha
  | XCH => exact does_exchange ha
  | PUSH => exact does_push ha
  | POP => exact does_pop ha
  | BREAK => exact ⟨.stop, rfl, fun _ => False.elim, fun m _ => rfl⟩
  | NOP | SLEEP | WDR => exact ⟨.nothing, rfl, fun _ => False.elim, fun m _ => rfl⟩

end Avr

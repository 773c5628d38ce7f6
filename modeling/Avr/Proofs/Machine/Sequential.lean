import Avr.Proofs.Machine.Confined
import Avr.Proofs.Machine.Limited

/-!
# Instructions that redirect nothing

* `Image.Boundary` : a slot where an instruction begins, or the end of flash; `WellFormed.boundary_behind` : behind an
  instruction there is one;
* `Sequential` : parts of instructions after which the machine goes on with the next instruction, or stops;
  `execute_sequential` : all but branches, skips, jumps, calls and returns are such;
* `skipsOn?` : whether a skip passes over the next instruction; `exists_skipsOn` : skips do what it says;
* `Redirects` : branches taken, jumps, calls of the program and returns; `execute_straight` : all other instructions
  go to the next one or past it;
* `step_boundary`, `step_skips` : the same for steps, in which a skip passes over all of the next instruction;
* `step_straight` : both, for the machines of an assembled image.
-/

namespace Avr

open Catalog

variable {γ : Type} {image : Image}

/-! ## Where instructions begin -/

/-- A slot where an instruction begins, or the end of flash. -/
def Image.Boundary (image : Image) (j : Nat) : Prop := (∃ i, image.program[j]? = some (.inst i)) ∨ j = flashSize

/-- Behind an instruction the next one begins, unless flash ends there. -/
theorem Image.WellFormed.boundary_behind (hw : image.WellFormed) {j : Nat} {i : Instruction}
    (hi : image.program[j]? = some (.inst i)) : image.Boundary (j + i.width) := by
  obtain hlt | heq := Nat.lt_or_eq_of_le (hw.behind_le hi)
  · have hsize : j + i.width < image.program.size := hw.programSize.symm ▸ hlt
    cases hslot : image.program[j + i.width]? with
    | none => exact absurd (Array.getElem?_eq_none_iff.1 hslot) (by omega)
    | some slot =>
      cases slot with
      | inst i' => exact .inl ⟨i', hslot⟩
      | continuation =>
        -- a second word there would be that of an instruction of two words one slot before
        obtain ⟨k, i', hk, hi', hwidth⟩ := (hw.continuation _).1 hslot
        obtain hone | htwo := width_cases i
        · obtain rfl : k = j := by omega
          cases hi.symm.trans hi'
          omega
        · obtain rfl : k = j + 1 := by omega
          have hsecond := (hw.continuation (j + 1)).2 ⟨j, i, rfl, hi, htwo⟩
          cases hsecond.symm.trans hi'
  · exact .inr heq

namespace Machine

variable {m m' : Machine γ} {i : Instruction} {c : Control}

/-- Inside flash the slot behind an instruction of one word belongs to an instruction. -/
theorem exists_behind (hw : image.WellFormed) (himage : m.image = image) (hi : image.program[m.pc]? = some (.inst i))
    (hpc : m.pc < flashEnd) (hwidth : i.width = 1) :
    ∃ j, image.program[m.pc + 1]? = some (.inst j) ∧ m.nextWidth = j.width := by
  have hsize : flashSize = flashEnd + 1 := rfl
  have hbehind := hw.boundary_behind hi
  rw [hwidth] at hbehind
  obtain ⟨j, hj⟩ | hend := hbehind
  · refine ⟨j, hj, ?_⟩
    rw [nextWidth, himage, hj]
  · omega

/-! ## Instructions in a row -/

section Sequential

variable {α : Type}

/-- Where the part succeeds, the machine goes on with the next instruction, or stops. -/
def Sequential (x : Exec γ Control) : Prop := ∀ m m' c, x m = .ok c m' → c = .next ∨ c = .stop

theorem Sequential.bind {x : Exec γ α} {f : α → Exec γ Control} (hf : ∀ a, Sequential (f a)) :
    Sequential (x >>= f) := by
  intro m m' c h
  obtain ⟨a, n, -, hrest⟩ := bind_ok h
  exact hf a n m' c hrest

theorem sequential_next : Sequential (pure .next : Exec γ Control) := by
  intro m m' c h
  cases h
  exact .inl rfl

theorem sequential_stop : Sequential (pure .stop : Exec γ Control) := by
  intro m m' c h
  cases h
  exact .inr rfl

theorem sequential_thenNext (f : Machine γ → Machine γ) : Sequential (thenNext f) := .bind fun _ => sequential_next

theorem sequential_onRegisters (i : Instruction) (f : Nat → Nat → Machine γ → Machine γ) :
    Sequential (onRegisters i f) := .bind fun _ => .bind fun _ => sequential_thenNext _

theorem sequential_onConstant (i : Instruction) (f : Nat → Byte → Machine γ → Machine γ) :
    Sequential (onConstant i f) := .bind fun _ => .bind fun _ => sequential_thenNext _

theorem sequential_onRegister (i : Instruction) (f : Nat → Machine γ → Machine γ) : Sequential (onRegister i f) :=
  .bind fun _ => sequential_thenNext _

theorem sequential_assignIoBit (i : Instruction) (v : Bool) : Sequential (assignIoBit i v : Exec γ Control) :=
  .bind fun _ => .bind fun _ => .bind fun _ => .bind fun _ => sequential_next

/-- Every other instruction than branches, skips, jumps, calls of the program and returns. -/
theorem execute_sequential [Console γ] (hconditional : i.mnemonic.isConditional = false)
    (htransfer : i.mnemonic ∉ [.RJMP, .JMP, .IJMP, .ICALL, .RET, .RETI])
    (hcall : i.mnemonic ∈ [.CALL, .RCALL] → i.callsFunc = true) : Sequential (execute i : Exec γ Control) := by
  obtain ⟨mn, ops, o, l⟩ := i
  unfold execute
  cases mn with
  | ADD | ADC | SUB | SBC | AND | OR | EOR | CP | CPC | MOV | MOVW | MUL | MULS | MULSU | FMUL | FMULS | FMULSU =>
    exact sequential_onRegisters _ _
  | ANDI | ORI | SBR | CBR | SUBI | SBCI | CPI | LDI => exact sequential_onConstant _ _
  | ASR | COM | DEC | INC | LSL | LSR | NEG | ROL | ROR | CLR | SWAP | TST | SER => exact sequential_onRegister _ _
  | ADIW | SBIW | BST | BLD | POP => exact .bind fun _ => .bind fun _ => sequential_thenNext _
  | BSET | BCLR => exact .bind fun _ => sequential_thenNext _
  | SEC | SEZ | SEN | SEV | SES | SEH | SET | SEI | CLC | CLZ | CLN | CLV | CLS | CLH | CLT | CLI =>
    exact sequential_thenNext _
  | CBI | SBI => exact sequential_assignIoBit _ _
  | IN | LDS => exact .bind fun _ => .bind fun _ => .bind fun _ => sequential_thenNext _
  | LD | LDD | ST | STD => exact .bind fun _ => .bind fun _ => .bind fun _ => .bind fun _ => sequential_thenNext _
  | XCH =>
    exact .bind fun _ => .bind fun _ => .bind fun _ => .bind fun _ => .bind fun _ => sequential_thenNext _
  | OUT | STS => exact .bind fun _ => .bind fun _ => .bind fun _ => .bind fun _ => sequential_next
  | PUSH => exact .bind fun _ => .bind fun _ => .bind fun _ => sequential_next
  | RCALL | CALL =>
    dsimp only
    rw [if_pos (hcall (by simp))]
    exact .bind fun _ => sequential_next
  | BREAK => exact sequential_stop
  | NOP | SLEEP | WDR => exact sequential_next
  | RJMP | JMP | IJMP | ICALL | RET | RETI => exact absurd (by simp) htransfer
  | _ => cases hconditional

end Sequential

/-! ## Skips -/

/-- Whether the next instruction is passed over, if the instruction is one that decides about this: two registers are
equal, or a bit of a register or of an input/output cell is clear or set. -/
def skipsOn? (m : Machine γ) (i : Instruction) : Option Bool :=
  match i.mnemonic, i.operands with
  | .CPSE, [.reg d, .reg r] => some (m.register d == m.register r)
  | .SBRC, [.reg r, .imm n] => some (!(m.register r).getLsbD n.toNat)
  | .SBRS, [.reg r, .imm n] => some ((m.register r).getLsbD n.toNat)
  | .SBIC, [.imm a, .imm n] => some (!(m.memory.read (a.toNat + ioOffset)).getLsbD n.toNat)
  | .SBIS, [.imm a, .imm n] => some ((m.memory.read (a.toNat + ioOffset)).getLsbD n.toNat)
  | _, _ => none

theorem mem_of_skipsOn {taken : Bool} (h : m.skipsOn? i = some taken) :
    i.mnemonic ∈ [.CPSE, .SBRC, .SBRS, .SBIC, .SBIS] := by
  unfold skipsOn? at h
  split at h
  case h_6 => cases h
  all_goals
    next hmn _ =>
      rw [hmn]
      decide

theorem emod_of_admits_bit {op : Operand} (h : Place.bit.Admits op) :
    ∃ v : Int, op = .imm v ∧ (v % 8).toNat = v.toNat := by
  obtain ⟨v, rfl, hv⟩ := h.int
  have hrange := admitsValue_range.1 hv
  exact ⟨v, rfl, by rw [Int.emod_eq_of_lt hrange.1 (by omega)]⟩

theorem load_lowIo (a : Fin 64) (m : Machine γ) :
    (load (ioAddressOf a.val) : Exec γ Byte) m = .ok (m.memory.read ((a.val : Int).toNat + ioOffset)) m := by
  rw [load_ok (inMemory_ioAddressOf a), ioAddressOf_natCast (Nat.lt_succ_iff.1 a.isLt), Int.toNat_natCast]

theorem skip_ok {taken : Bool} (h : (skip taken : Exec γ Control) m = .ok c m') :
    c = .next ∨ c = .jump (m.pc + 1 + m.nextWidth) := by
  cases taken with
  | false =>
    cases h
    exact .inl rfl
  | true =>
    cases h
    exact .inr rfl

theorem branchOn_of_ne {b : StatusBit} {v : Bool} (h : m.flag b ≠ v) (k : Int) :
    (branchOn b v k : Exec γ Control) m = .ok .next m := by
  show (branch (m.flag b == v) k : Exec γ Control) m = _
  rw [beq_false_of_ne h]
  rfl

variable [Console γ]

theorem exists_skipsOn (ha : Admitted i.mnemonic i.operands) (hi : i.mnemonic ∈ [.CPSE, .SBRC, .SBRS, .SBIC, .SBIS])
    (m : Machine γ) : ∃ taken, m.skipsOn? i = some taken ∧ execute i m = (skip taken : Exec γ Control) m := by
  obtain ⟨mn, ops, o, l⟩ := i
  simp only [List.mem_cons, List.not_mem_nil, or_false] at hi
  obtain rfl | rfl | rfl | rfl | rfl := hi
  · obtain ⟨op, op', rfl, hd, hr⟩ := exists_of_admits_two rfl ha
    obtain ⟨d, rfl⟩ := hd.registerUpTo 31 rfl
    obtain ⟨r, rfl⟩ := hr.registerUpTo 31 rfl
    exact ⟨_, rfl, rfl⟩
  · obtain ⟨op, op', rfl, hreg, hbit⟩ := exists_of_admits_two rfl ha
    obtain ⟨r, rfl⟩ := hreg.registerUpTo 31 rfl
    obtain ⟨v, rfl, hv⟩ := emod_of_admits_bit hbit
    refine ⟨_, rfl, ?_⟩
    rw [← hv]
    rfl
  · obtain ⟨op, op', rfl, hreg, hbit⟩ := exists_of_admits_two rfl ha
    obtain ⟨r, rfl⟩ := hreg.registerUpTo 31 rfl
    obtain ⟨v, rfl, hv⟩ := emod_of_admits_bit hbit
    refine ⟨_, rfl, ?_⟩
    rw [← hv]
    rfl
  all_goals
    obtain ⟨op, op', rfl, hio, hbit⟩ := exists_of_admits_two rfl ha
    obtain ⟨a, rfl⟩ := exists_lowIo hio
    obtain ⟨v, rfl, hv⟩ := emod_of_admits_bit hbit
    refine ⟨_, rfl, ?_⟩
    rw [← hv]
    exact bind_run_ok (load_lowIo a m)

/-! ## Instructions that redirect -/

/-- The instruction leads somewhere of its own: a branch that is taken, a jump, a call of the program or a return. -/
def Redirects (m : Machine γ) (i : Instruction) : Prop :=
  (∃ b v, i.branchesOn? = some (b, v) ∧ m.flag b = v) ∨ i.mnemonic ∈ [.RJMP, .JMP, .IJMP] ∨ i.Calls ∨
    i.mnemonic ∈ [.RET, .RETI]

/-- The conditional instructions are skips and branches on any bit or on a named one. -/
theorem conditional_cases {mn : Mnemonic} (h : mn.isConditional = true) :
    mn ∈ [.CPSE, .SBRC, .SBRS, .SBIC, .SBIS] ∨ (∃ v, mn = branchMnemonic v) ∨
      ∃ b v, mn.branchCondition? = some (b, v) := by
  cases mn with
  | CPSE | SBRC | SBRS | SBIC | SBIS => exact .inl (by decide)
  | BRBC => exact .inr (.inl ⟨false, rfl⟩)
  | BRBS => exact .inr (.inl ⟨true, rfl⟩)
  | BRCC | BRSH | BRCS | BRLO | BRNE | BREQ | BRPL | BRMI | BRVC | BRVS | BRGE | BRLT | BRHC | BRHS | BRTC | BRTS
  | BRID | BRIE => exact .inr (.inr ⟨_, _, rfl⟩)
  | _ => cases h

/-- A conditional instruction that takes no branch goes to the next one or past it. -/
theorem execute_not_taken (ha : Admitted i.mnemonic i.operands) (hi : i.mnemonic.isConditional = true)
    (hr : ¬ m.Redirects i) : ∃ taken, execute i m = (skip taken : Exec γ Control) m := by
  have hflag {b : StatusBit} {v : Bool} (hb : i.branchesOn? = some (b, v)) : m.flag b ≠ v :=
    fun h => hr (.inl ⟨b, v, hb, h⟩)
  obtain ⟨mn, ops, o, l⟩ := i
  obtain hskip | ⟨v, rfl⟩ | ⟨b, v, hb⟩ := conditional_cases hi
  · obtain ⟨taken, -, hrun⟩ := exists_skipsOn ha hskip m
    exact ⟨taken, hrun⟩
  · have hargs : (branchMnemonic v).entry.args = [Place.bit, Place.near] := by cases v <;> rfl
    obtain ⟨op, op', rfl, hbit, hdistance⟩ := exists_of_admits_two hargs ha
    obtain ⟨b, rfl⟩ := exists_of_admits_bit hbit
    obtain ⟨k, rfl, -⟩ := hdistance.int
    have hb : (⟨branchMnemonic v, [.imm b.index, .imm k], o, l⟩ : Instruction).branchesOn? = some (b, v) := by
      cases v <;> cases b <;> rfl
    refine ⟨false, ?_⟩
    rw [execute_bit, branchOn_of_ne (hflag hb)]
    rfl
  · obtain ⟨op, rfl, hdistance⟩ := exists_of_admits_one (args_branch hb).1 ha
    obtain ⟨k, rfl, -⟩ := hdistance.int
    have hbranch : (⟨mn, [.imm k], o, l⟩ : Instruction).branchesOn? = some (b, v) := by
      cases mn <;> cases hb <;> rfl
    refine ⟨false, ?_⟩
    rw [execute_named hb, branchOn_of_ne (hflag hbranch)]
    rfl

theorem calls_of_admitted (ha : Admitted i.mnemonic i.operands) (hi : i.mnemonic = .ICALL) : i.Calls := by
  have hoperands : i.operands = [] := by
    rw [hi] at ha
    exact List.forall₂_nil_left_iff.1 ha
  refine ⟨by simp [hi], ?_⟩
  rw [Instruction.callsFunc, hoperands]
  rfl

theorem width_conditional (h : i.mnemonic.isConditional = true) : i.width = 1 := by
  have hsingle : i.mnemonic ∉ doubleWords := by
    intro hmem
    simp only [doubleWords, List.mem_cons, List.not_mem_nil, or_false] at hmem
    obtain hmn | hmn | hmn | hmn := hmem <;> rw [hmn] at h <;> cases h
  rw [Instruction.width, width_eq, if_neg hsingle]

/-- An instruction that redirects nothing goes to the next one, stops, or passes over the next one, which only
instructions of one word do. -/
theorem execute_straight (ha : Admitted i.mnemonic i.operands) (hr : ¬ m.Redirects i) (h : execute i m = .ok c m') :
    (c = .next ∨ c = .stop) ∨ c = .jump (m.pc + 1 + m.nextWidth) ∧ i.width = 1 := by
  cases hi : i.mnemonic.isConditional with
  | true =>
    obtain ⟨taken, hrun⟩ := execute_not_taken ha hi hr
    obtain hc | hc := skip_ok (hrun.symm.trans h)
    · exact .inl (.inl hc)
    · exact .inr ⟨hc, width_conditional hi⟩
  | false =>
    simp only [Redirects, not_or] at hr
    obtain ⟨-, hjump, hcalls, hret⟩ := hr
    have htransfer : i.mnemonic ∉ [.RJMP, .JMP, .IJMP, .ICALL, .RET, .RETI] := by
      have hindirect : i.mnemonic ≠ .ICALL := fun hmn => hcalls (calls_of_admitted ha hmn)
      simp only [List.mem_cons, List.not_mem_nil, or_false, not_or] at hjump hret ⊢
      exact ⟨hjump.1, hjump.2.1, hjump.2.2, hindirect, hret⟩
    have hprints : i.mnemonic ∈ [.CALL, .RCALL] → i.callsFunc = true := by
      intro hmem
      have hlist : i.mnemonic ∈ [.CALL, .RCALL] ++ [.ICALL] := List.mem_append_left _ hmem
      rw [← Bool.not_eq_false]
      exact fun hfunc => hcalls ⟨hlist, hfunc⟩
    exact .inl (execute_sequential hi htransfer hprints m m' c h)

/-! ## Steps -/

/-- Wherever an instruction that redirects nothing leads, an instruction begins or flash ends. -/
theorem perform_boundary (hw : image.WellFormed) (himage : m.image = image) (habout : m.AboutTo i)
    (hr : ¬ m.Redirects i) : image.Boundary (m.cleared.perform i).pc := by
  have hslot : image.program[m.pc]? = some (.inst i) := himage ▸ habout.fetched
  have ha := hw.admitted_of_mem (Array.mem_of_getElem? hslot)
  cases hrun : execute i (m.ready i) with
  | error f m' =>
    have hfailed := perform_error hrun
    have huntouched := (Steps.execution habout).untouched hw himage (congrArg condition hfailed)
    rw [huntouched.pc]
    exact .inl ⟨i, hslot⟩
  | ok c m' =>
    have hpc : m'.pc = m.pc := (execute_ok_frame hrun).pc
    rw [perform_ok hrun]
    obtain (rfl | rfl) | ⟨rfl, hwidth⟩ := execute_straight (m := m.ready i) ha hr hrun
    · show image.Boundary (m'.pc + i.width)
      rw [hpc]
      exact hw.boundary_behind hslot
    · show image.Boundary m'.pc
      rw [hpc]
      exact .inl ⟨i, hslot⟩
    · obtain ⟨j, hj, hnext⟩ := exists_behind hw himage hslot habout.inFlash hwidth
      show image.Boundary (m.pc + 1 + m.nextWidth)
      rw [hnext]
      exact hw.boundary_behind hj

/-- A step of a machine at an instruction that redirects nothing leads to a slot where an instruction begins or to the
end of flash, or the machine stays where it is. -/
theorem step_boundary (hw : image.WellFormed) (himage : m.image = image) (hi : image.program[m.pc]? = some (.inst i))
    (hpc : m.pc < flashEnd) (hr : ¬ m.Redirects i) : image.Boundary m.step.pc := by
  have hstays : image.Boundary m.pc := .inl ⟨i, hi⟩
  by_cases hrunning : m.condition = .running
  · rw [step_of_running hrunning]
    by_cases hbreakpoint : m.image.breakpoint = some m.pc
    · rw [if_pos hbreakpoint]
      exact hstays
    · rw [if_neg hbreakpoint, if_neg (Nat.not_le.2 hpc)]
      cases hlimit : m.limitReached? with
      | some n => exact hstays
      | none =>
        have hfetched : m.image.program[m.pc]? = some (.inst i) := himage ▸ hi
        have hdispatch : m.cleared.dispatch = m.cleared.perform i := dispatch_eq_perform hfetched
        show image.Boundary m.cleared.dispatch.pc
        rw [hdispatch]
        exact perform_boundary hw himage ⟨hfetched, hrunning, hbreakpoint, hpc, hlimit⟩ hr
  · rw [step_of_not_running hrunning]
    exact hstays

/-- What a skip leaves: the next instruction, whatever its width, has been passed over and its width added to the
cycles, or nothing has happened to it. -/
structure Skipped (m : Machine γ) (i j : Instruction) (taken : Bool) (m' : Machine γ) : Prop where
  running : m'.condition = .running
  pc : m'.pc = m.pc + 1 + if taken then j.width else 0
  cycles : m'.stats.cycles = m.stats.cycles + i.mnemonic.entry.cycles + if taken then j.width else 0

theorem step_skips (hw : image.WellFormed) (himage : m.image = image) (habout : m.AboutTo i) {taken : Bool}
    (hs : m.skipsOn? i = some taken) :
    ∃ j, image.program[m.pc + 1]? = some (.inst j) ∧ m.Skipped i j taken m.step := by
  have hslot : image.program[m.pc]? = some (.inst i) := himage ▸ habout.fetched
  have ha := hw.admitted_of_mem (Array.mem_of_getElem? hslot)
  have hmem := mem_of_skipsOn hs
  have hconditional : i.mnemonic.isConditional = true := by
    simp only [List.mem_cons, List.not_mem_nil, or_false] at hmem
    obtain hmn | hmn | hmn | hmn | hmn := hmem <;> rw [hmn] <;> rfl
  have hwidth : i.width = 1 := width_conditional hconditional
  obtain ⟨j, hj, hnext⟩ := exists_behind hw himage hslot habout.inFlash hwidth
  obtain ⟨taken', hsame, hrun⟩ := exists_skipsOn ha hmem (m.ready i)
  obtain rfl : taken = taken' := Option.some.inj (hs.symm.trans hsame)
  refine ⟨j, hj, ?_⟩
  cases taken with
  | false =>
    have hstep : m.step = (m.ready i).proceed i .next := (step_eq_perform habout).trans (perform_ok hrun)
    rw [hstep]
    refine ⟨habout.running, ?_, rfl⟩
    show m.pc + i.width = m.pc + 1
    rw [hwidth]
  | true =>
    have hstep : m.step = ((m.ready i).countTaken m.nextWidth).proceed i (.jump (m.pc + 1 + m.nextWidth)) :=
      (step_eq_perform habout).trans (perform_ok hrun)
    rw [hnext] at hstep
    rw [hstep]
    exact ⟨habout.running, rfl, rfl⟩

end Machine

open Machine

variable [Console γ] {m : Machine γ} {i : Instruction} {source : String} {wanted : Option Nat}

/-- Only instructions that redirect lead inside another one: from every other one a machine with an assembled image
gets to a slot where an instruction begins or to the end of flash, or stays where it is. A skip passes over all of the
next instruction and adds its width to the cycles, be it one of the code or filler. -/
theorem step_straight (h : assemble source wanted = .ok image) (himage : m.image = image)
    (hi : image.program[m.pc]? = some (.inst i)) (hpc : m.pc < flashEnd) :
    (¬ m.Redirects i → image.Boundary m.step.pc) ∧
      ∀ taken, m.AboutTo i → m.skipsOn? i = some taken → ∃ j, image.program[m.pc + 1]? = some (.inst j) ∧
        (image.codeLength ≤ m.pc + 1 → j = .nop) ∧ (j.width = 1 ∨ j.width = 2) ∧ m.Skipped i j taken m.step := by
  have hw := wellFormed_of_assemble h
  refine ⟨step_boundary hw himage hi hpc, fun taken habout hs => ?_⟩
  obtain ⟨j, hj, hskipped⟩ := step_skips hw himage habout hs
  refine ⟨j, hj, fun hfiller => ?_, width_cases j, hskipped⟩
  have hflash : m.pc + 1 < flashSize := Nat.succ_lt_succ hpc
  cases hj.symm.trans (hw.filler _ hfiller hflash)
  rfl

def skipSource : String := ".section .text
.global main
main: CPSE R0, R0
JMP main
.end"

def skipInstruction : Instruction := ⟨.CPSE, [.reg 0, .reg 0], "0001000000000000", 3⟩

def skippedInstruction : Instruction := ⟨.JMP, [.imm 0], "10010100000011000000000000000000", 4⟩

def skipSlots : List Slot := [.inst skipInstruction, .inst skippedInstruction, .continuation]

def skipImage (symbols : Symbols) : Image :=
  let bytes : Array Byte := Array.replicate ramStart 0
  ⟨filled skipSlots.toArray, Vector.ofFn fun i => bytes[i.val]?.getD 0, none, symbols, 3, bytes.size⟩

theorem assemble_skip : ∃ symbols, assemble skipSource none = .ok (skipImage symbols) := by
  apply assemble_of_assemblesTo
  decide +kernel

def skipMachine (symbols : Symbols) : Machine (Array Byte) :=
  ⟨skipImage symbols, none, ⟨(skipImage symbols).data, []⟩, 0, .running, {}, Vector.replicate _ 0, #[]⟩

theorem step_straight_double : ∃ symbols, let m := skipMachine symbols
    assemble skipSource none = .ok (skipImage symbols) ∧ m.image = skipImage symbols ∧ m.AboutTo skipInstruction ∧
      ¬ m.Redirects skipInstruction ∧ m.skipsOn? skipInstruction = some true ∧
      (skipImage symbols).Boundary m.step.pc ∧ m.step.pc = 3 ∧ m.step.stats.cycles = 3 := by
  obtain ⟨symbols, hassemble⟩ := assemble_skip
  refine ⟨symbols, ?_⟩
  intro m
  have hslot {k : Nat} (hk : k < 3) : (skipImage symbols).program[k]? = skipSlots[k]? := by
    show (filled skipSlots.toArray)[k]? = _
    rw [filled, Array.getElem?_append_left (show k < skipSlots.toArray.size from hk), List.getElem?_toArray]
  have hfetched : (skipImage symbols).program[m.pc]? = some (.inst skipInstruction) := hslot (show 0 < 3 by decide)
  have hflash : m.pc < flashEnd := show 0 < flashEnd by decide
  have hbreakpoint : m.image.breakpoint ≠ some m.pc := (Option.some_ne_none m.pc).symm
  have habout : m.AboutTo skipInstruction := ⟨hfetched, rfl, hbreakpoint, hflash, rfl⟩
  have hr : ¬ m.Redirects skipInstruction := by
    rintro (⟨b, v, hb, -⟩ | hjump | ⟨hcall, -⟩ | hret)
    · cases hb
    · exact absurd hjump (by decide)
    · exact absurd hcall (by decide)
    · exact absurd hret (by decide)
  have hs : m.skipsOn? skipInstruction = some true := congrArg some (beq_self_eq_true _)
  obtain ⟨hboundary, hskips⟩ := step_straight (m := m) hassemble rfl hfetched hflash
  obtain ⟨j, hj, -, -, hskipped⟩ := hskips true habout hs
  have hnext : (skipImage symbols).program[1]? = some (.inst skippedInstruction) := hslot (by decide)
  cases hj.symm.trans hnext
  exact ⟨hassemble, rfl, habout, hr, hs, hboundary hr, hskipped.pc, hskipped.cycles⟩

end Avr

import Avr.Alu
import Avr.Machine

/-!
# What instructions are made of

* `Exec` : a part of an instruction; it may fail, and what it did before stays done;
* `Instruction.reg`, `imm`, `bit`, `ptr` : the operands in the form that an instruction wants;
* `load`, `store`, `textAt` : data memory with its bounds checked;
* `push`, `pop`, `pushReturn`, `popReturn` : the stack;
* `absolute`, `relative`, `branch`, `skip`, `call` : transfers of control;
* `print` : the function that prints a text.
-/

namespace Avr

/-- A part of an instruction. It may fail; what it did to the machine before stays done. -/
abbrev Exec (γ α : Type) := EStateM Fault (Machine γ) α

/-- Where the machine goes after an instruction. -/
inductive Control
  /-- To the instruction behind it. -/
  | next
  | jump (target : Nat)
  /-- Nowhere: the program is over. -/
  | stop
deriving DecidableEq, Repr

variable {γ : Type}

/-! ## Operands -/

namespace Instruction

def reg (i : Instruction) (n : Nat) : Exec γ Nat :=
  match i.operands[n]? with
  | some (.reg r) => pure r
  | _ => throw (.malformedOperands i.mnemonic)

def imm (i : Instruction) (n : Nat) : Exec γ Int :=
  match i.operands[n]? with
  | some (.imm v) => pure v
  | _ => throw (.malformedOperands i.mnemonic)

/-- Operand `n` as the number of a bit, taken modulo eight. -/
def bit (i : Instruction) (n : Nat) : Exec γ Nat := do return ((← i.imm n) % 8).toNat

def ptr (i : Instruction) (n : Nat) : Exec γ (Pointer × PointerMode) :=
  match i.operands[n]? with
  | some (.ptr p mode) => pure (p, mode)
  | _ => throw (.malformedOperands i.mnemonic)

/-- Whether the first operand is a function of the simulator. -/
def callsFunc (i : Instruction) : Bool :=
  match i.operands.head? with
  | some (.func _) => true
  | _ => false

end Instruction

/-- A number as a data address of 64 bits: negative ones count down from the top. -/
def addressOf (v : Int) : Nat := (v % 0x10000000000000000).toNat

def ioAddressOf (v : Int) : Nat := addressOf (v + ioOffset)

namespace Machine

/-! ## Data memory -/

def load (a : Nat) : Exec γ Byte := do
  if inMemory a then return (← get).memory.read a else throw (.addressOutOfRange a)

def store (a : Nat) (v : Byte) : Exec γ Unit :=
  if inMemory a then modify fun m => m.write a v else throw (.addressOutOfRange a)

/-- The bytes from an address up to the next zero. -/
def textAt (a : Nat) : Exec γ (List Byte) := do
  match (← get).memory.string? a with
  | some text => return text
  | none => throw (.unterminatedString a)

def applyFlags {α : Type} (m : Machine γ) (r : Alu.Result α) : Machine γ := m.setSreg (r.apply m.sreg)

def writeResult (m : Machine γ) (rd : Nat) (r : Alu.Result Byte) : Machine γ := (m.write rd r.value).applyFlags r

def writeWordResult (m : Machine γ) (rd : Nat) (r : Alu.Result Word) : Machine γ :=
  (m.writePair rd r.value).applyFlags r

/-! ## The stack -/

def push (v : Byte) : Exec γ Unit := do
  let sp := (← get).sp.toNat
  if sp < ramStart then throw (.stackOverflow sp)
  store sp v
  modify fun m => m.setSp (BitVec.ofNat 16 (sp - 1))

def pop : Exec γ Byte := do
  let sp := (← get).sp.toNat
  if ramEnd ≤ sp then throw (.stackUnderflow sp)
  let v ← load (sp + 1)
  modify fun m => m.setSp (BitVec.ofNat 16 (sp + 1))
  return v

/-- Puts a return address on the stack, low byte first, if there is room for all of it. -/
def pushReturn (index : Nat) : Exec γ Unit := do
  let sp := (← get).sp.toNat
  if sp < ramStart + 1 then throw (.stackOverflow (min sp (ramStart - 1)))
  let w := BitVec.ofNat 16 index
  store sp (lowByte w)
  store (sp - 1) (highByte w)
  modify fun m => m.setSp (BitVec.ofNat 16 (sp - 2))

/-! ## Transfers of control -/

def absolute (k : Int) : Exec γ Nat := if 0 ≤ k ∧ k < flashSize then pure k.toNat else throw (.jumpOutOfRange k)

/-- A target at a distance from the next slot. Distances are taken as 64-bit signed numbers. -/
def relative (k : Int) : Exec γ Nat := do absolute (((← get).pc + 1 + k : Int).bmod 0x10000000000000000)

/-- Takes a return address from the stack, if all of it is there and it is a target. -/
def popReturn : Exec γ Nat := do
  let sp := (← get).sp.toNat
  if ramEnd < sp + 2 then throw (.stackUnderflow (max sp ramEnd))
  let high ← load (sp + 1)
  let low ← load (sp + 2)
  let target ← absolute (wordOf low high).toNat
  modify fun m => m.setSp (BitVec.ofNat 16 (sp + 2))
  return target

def countTaken (m : Machine γ) (cycles : Nat) : Machine γ :=
  { m with stats := { m.stats with branchesTaken := m.stats.branchesTaken + 1, cycles := m.stats.cycles + cycles } }

def branch (taken : Bool) (k : Int) : Exec γ Control := do
  if taken then
    modify fun m => m.countTaken 1
    return .jump (← relative k)
  else return .next

/-- The number of slots that the instruction behind the current slot takes. -/
def nextWidth (m : Machine γ) : Nat :=
  match m.image.program[m.pc + 1]? with
  | some (.inst i) => i.width
  | _ => 1

/-- Passes over the next instruction, all of it, if the skip is taken. -/
def skip (taken : Bool) : Exec γ Control := do
  if taken then
    let m ← get
    let (pc, width) := (m.pc, m.nextWidth)
    modify fun m => m.countTaken width
    return .jump (pc + 1 + width)
  else return .next

/-- Jumps to a target and leaves the slot behind an instruction of that width as the return address. -/
def call (target width : Nat) : Exec γ Control := do
  pushReturn ((← get).pc + width)
  return .jump target

/-! ## Pointers -/

/-- The data address that a pointer operand means, and the value that the pointer takes after the access, if it
takes a new one. -/
def address (m : Machine γ) (p : Pointer) (mode : PointerMode) : Nat × Option Word :=
  let base := m.pointer p
  match mode with
  | .plain => (base.toNat, none)
  | .disp q => (base.toNat + q, none)
  | .postInc => (base.toNat, some (base + 1))
  | .preDec => ((base - 1).toNat, some (base - 1))

def updatePointer (m : Machine γ) (p : Pointer) (update : Option Word) : Machine γ :=
  match update with
  | some w => m.writePair p.lowRegister w
  | none => m

/-! ## Printing -/

/-- The machine after a text of that many bytes has been printed: the count in two registers, others clobbered. -/
def afterPrint (m : Machine γ) (length : Nat) : Machine γ :=
  let w := BitVec.ofNat 16 length
  let m := (m.write PseudoFunc.countRegisters.1 (lowByte w)).write PseudoFunc.countRegisters.2 (highByte w)
  PseudoFunc.clobbered.foldl (fun m r => m.write r 0xFF) m

/-- Prints the text whose address is on top of the stack. -/
def print [Console γ] : Exec γ Unit := do
  let sp := (← get).sp.toNat
  let high ← load (sp + 1)
  let low ← load (sp + 2)
  let text ← textAt (wordOf low high).toNat
  modify fun m => { m with console := Console.emit m.console text }
  modify fun m => m.afterPrint text.length

end Machine

end Avr

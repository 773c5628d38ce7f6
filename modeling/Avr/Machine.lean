import Avr.Fault
import Avr.Image
import Avr.Memory
import Avr.StepLimit
import Avr.Text.Utf8

/-!
# The machine

* `Console` : what receives the text that a program prints;
* `Machine` : an image being run: memory, program counter, status, counters and console;
* `Machine.reset`, `Machine.start` : the state before the first step;
* `sp`, `sreg`, `register` and their setters : the parts of data memory with a meaning of their own.
-/

namespace Avr

/-- What receives the text that a program prints. -/
class Console (γ : Type) where
  /-- The console after some bytes. -/
  emit : γ → List Byte → γ

/-- A console that keeps bytes. -/
instance : Console (Array Byte) where
  emit console bytes := console ++ bytes

/-- A console that shows each byte as the character of that code. -/
instance : Console String where
  emit console bytes := console ++ String.ofList (Text.latin1 bytes)

inductive Condition
  | running
  | finished
  | errored (fault : Fault)
deriving DecidableEq, Repr

namespace Condition

def name : Condition → String
  | running => "Running"
  | finished => "Finished"
  | errored _ => "Errored"

def fault? : Condition → Option Fault
  | errored f => some f
  | _ => none

end Condition

/-- What a run has done so far. -/
structure Stats where
  steps : Nat := 0
  /-- Base cycles, and what taken branches and skips add. -/
  cycles : Nat := 0
  branchesSeen : Nat := 0
  branchesTaken : Nat := 0
deriving DecidableEq, Repr

/-- An image being run, with a console of type `γ`. -/
structure Machine (γ : Type) where
  image : Image
  limit : StepLimit
  memory : Memory
  pc : Nat
  condition : Condition := .running
  stats : Stats := {}
  /-- How often each mnemonic has been executed, by its index. -/
  counts : Vector Nat Mnemonic.count := Vector.replicate Mnemonic.count 0
  console : γ

namespace Machine

variable {γ : Type}

/-! ## Parts of data memory -/

def sp (m : Machine γ) : Word := m.memory.readPair stackLowCell

def sreg (m : Machine γ) : Status := m.memory.read statusCell

def flag (m : Machine γ) (b : StatusBit) : Bool := m.sreg.test b

def register (m : Machine γ) (r : Nat) : Byte := m.memory.read r

/-- The word in a pair of registers, given by the lower one. -/
def pair (m : Machine γ) (r : Nat) : Word := m.memory.readPair r

/-- The word in a pointer register. -/
def pointer (m : Machine γ) (p : Pointer) : Word := m.pair p.lowRegister

def write (m : Machine γ) (a : Nat) (v : Byte) : Machine γ := { m with memory := m.memory.write a v }

def writePair (m : Machine γ) (a : Nat) (w : Word) : Machine γ := { m with memory := m.memory.writePair a w }

def setSp (m : Machine γ) (w : Word) : Machine γ := m.writePair stackLowCell w

def setSreg (m : Machine γ) (s : Status) : Machine γ := m.write statusCell s

def setFlag (m : Machine γ) (b : StatusBit) (v : Bool) : Machine γ := m.setSreg (m.sreg.assign b v)

/-! ## Before the first step -/

/-- The machine as it was before the first step, but for its console: data memory and program counter from the image,
the stack empty. The cells that held the entry index are zero. -/
def reset (m : Machine γ) : Machine γ :=
  let memory : Memory := { cells := m.image.data }
  let entry := memory.readPair entryLowCell
  let memory := (memory.writePair entryLowCell 0).writePair stackLowCell (BitVec.ofNat 16 ramEnd)
  { m with
    memory := memory.clearChanges
    pc := entry.toNat
    condition := .running
    stats := {}
    counts := Vector.replicate Mnemonic.count 0 }

/-- The machine as it is before the first step. -/
def start (image : Image) (limit : StepLimit) (console : γ) : Machine γ :=
  reset { image := image, limit := limit, memory := { cells := image.data }, pc := 0, console := console }

/-- Nothing but the image, the limit and the console outlasts a reset. -/
theorem reset_eq_start (m : Machine γ) : m.reset = start m.image m.limit m.console := rfl

theorem pc_start (image : Image) (limit : StepLimit) (console : γ) :
    (start image limit console).pc = (({ cells := image.data } : Memory).readPair entryLowCell).toNat := rfl

/-! ## What can be asked -/

def count (m : Machine γ) (k : Mnemonic) : Nat := m.counts.get ⟨k.index, k.index_lt⟩

/-- The source line of the instruction to be executed next, unless it is filler. -/
def currentLine? (m : Machine γ) : Option Nat :=
  ((m.image.program[m.pc]?.bind Slot.inst?).map Instruction.line).filter (· ≠ 0)

end Machine

end Avr

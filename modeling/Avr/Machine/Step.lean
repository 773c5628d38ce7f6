import Avr.Machine.Execute

/-!
# Steps and runs

* `Machine.account` : the counters before an instruction;
* `Machine.step` : one instruction, or the end of the run; nothing once the machine has stopped;
* `Machine.steps` : a number of steps;
* `Machine.run` : steps until the machine stops.
-/

namespace Avr.Machine

variable {γ : Type}

/-! ## Steps -/

def finish (m : Machine γ) : Machine γ := { m with condition := .finished }

def fail (m : Machine γ) (f : Fault) : Machine γ := { m with condition := .errored f }

/-- The machine with an instruction counted as executed. -/
def account (m : Machine γ) (i : Instruction) : Machine γ :=
  let k := i.mnemonic
  { m with
    stats := { m.stats with
      steps := m.stats.steps + 1
      cycles := m.stats.cycles + k.entry.cycles
      branchesSeen := m.stats.branchesSeen + if k.isConditional then 1 else 0 }
    counts := m.counts.set k.index (m.count k + 1) k.index_lt }

/-- The machine after an instruction that went well. -/
def proceed (m : Machine γ) (i : Instruction) : Control → Machine γ
  | .next => { m with pc := m.pc + i.width }
  | .jump target => { m with pc := target }
  | .stop => m.finish

/-- The limit of instructions, if it has been reached. -/
def limitReached? (m : Machine γ) : Option Nat := m.limit.filter (· ≤ m.stats.steps)

/-- The machine after the instruction at its program counter. -/
def dispatch [Console γ] (m : Machine γ) : Machine γ :=
  match m.image.program[m.pc]? with
  | none => m.fail (.jumpOutOfRange m.pc)
  | some .continuation => m.fail (.continuationExecuted m.pc)
  | some (.inst i) =>
    match (execute i).run (m.account i) with
    | .ok control m => m.proceed i control
    | .error fault m => m.fail fault

/-- One instruction, unless the machine has stopped, or stops now: at its breakpoint, at the end of flash, or at
its limit, asked in this order. -/
def step [Console γ] (m : Machine γ) : Machine γ :=
  match m.condition with
  | .running =>
    if m.image.breakpoint = some m.pc then m.finish
    else if flashEnd ≤ m.pc then { m with pc := flashEnd }.finish
    else match m.limitReached? with
      | some limit => m.fail (.stepLimit limit)
      | none => { m with memory := m.memory.clearChanges }.dispatch
  | _ => m

def steps [Console γ] : Nat → Machine γ → Machine γ
  | 0, m => m
  | n + 1, m => steps n m.step

/-! ## Runs -/

def isRunning (m : Machine γ) : Bool := m.condition == .running

/-- Steps until the machine stops, at most `fuel` of them. -/
def runFor [Console γ] : Nat → Machine γ → Machine γ
  | 0, m => m
  | n + 1, m =>
    let m := m.step
    if m.isRunning then runFor n m else m

/-- A number of steps that is enough for any run: with a limit, one more than it leaves. -/
def fuel (m : Machine γ) : Nat :=
  match m.limit with
  | some limit => limit - m.stats.steps + 1
  | none => 0x4000000000000000

def run [Console γ] (m : Machine γ) : Machine γ := runFor m.fuel m

end Avr.Machine

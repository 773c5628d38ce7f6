import Avr.Machine.Step

/-!
# Snapshots

`Snapshot` : what a host shows of a machine between two steps; `Snapshot.of` takes one and `Snapshot.text` shows
it.
-/

namespace Avr

/-- What a host shows of a machine between two steps. -/
structure Snapshot where
  condition : Condition
  pc : Nat
  sp : Word
  x : Word
  y : Word
  z : Word
  registers : List Byte
  /-- For each register the bits that the last step flipped. -/
  registerChanges : List Byte
  sreg : Status
  sregChanges : Status
  stats : Stats
  /-- The source line of the instruction at the program counter. -/
  line : Option Nat

namespace Snapshot

def of {γ : Type} (m : Machine γ) : Snapshot where
  condition := m.condition
  pc := m.pc
  sp := m.sp
  x := m.pointer .X
  y := m.pointer .Y
  z := m.pointer .Z
  registers := (List.range registerCount).map m.register
  registerChanges := (List.range registerCount).map m.memory.changed
  sreg := m.sreg
  sregChanges := m.memory.changed statusCell
  stats := m.stats
  line := m.currentLine?

def error? (s : Snapshot) : Option String := s.condition.fault?.map Fault.message

/-- A register with its value, marked if it has changed. -/
def registerText (r : Nat) (value changes : Byte) : String :=
  "R" ++ Text.padRight 2 (toString r) ++ (if changes = 0 then " " else "*") ++ "0x" ++ Text.hex 2 value.toNat ++ " "

def registerRows (s : Snapshot) : String :=
  String.join (((s.registers.zip s.registerChanges).zipIdx).map fun ((value, changes), r) =>
    registerText r value changes ++ if r % 8 = 7 then "\n" else "")

def text (s : Snapshot) : String :=
  let word (w : Word) := Text.hexAddress w.toNat
  "PC: " ++ Text.hexAddress s.pc ++ " SP: " ++ word s.sp ++ " X: " ++ word s.x ++ " Y: " ++ word s.y ++ " Z: " ++
    word s.z ++ " SREG: " ++ s.sreg.letters ++ "\n" ++ s.registerRows ++
    "steps: " ++ toString s.stats.steps ++ " cycles: " ++ toString s.stats.cycles ++ " branches: " ++
    toString s.stats.branchesTaken ++ "/" ++ toString s.stats.branchesSeen ++ " (" ++ s.condition.name ++ ")" ++
    (match s.error? with
      | some e => "\nerror: " ++ e
      | none => "")

end Snapshot

end Avr

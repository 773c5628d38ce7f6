import Avr.Layout.Data

/-!
# Both memories of a program

* `Layout` : program slots, data bytes and names, before the operands of instructions are resolved;
* `layout` : checks the structure of a program and lays it out, the text section first;
* `Layout.resolve` : the same with the operands of every instruction resolved.

The machine starts at the first name declared by `.global`; its index is left in two reserved cells.
-/

namespace Avr

structure Layout where
  /-- Program memory; `none` is the second word of an instruction. -/
  slots : Array (Option Statement)
  /-- Data memory from address zero up to the end of the data section. -/
  bytes : Array Byte
  symbols : Symbols
  breakpoint : Option Nat

/-- The bytes with the entry index in its reserved cells. -/
def withEntry (bytes : Array Byte) (entry : Nat) : Array Byte :=
  let w := BitVec.ofNat 16 entry
  (bytes.setIfInBounds entryLowCell (lowByte w)).setIfInBounds entryHighCell (highByte w)

/-- Lays out a program. Names of the text section may be used in the data section, and the other way round. -/
def layout (lines : List Line) (breakpointLine : Option Nat) : Except Diagnostic Layout := do
  let sections ← checkSections lines
  checkMnemonics lines
  let program ← layoutProgram sections lines Symbols.predefined breakpointLine
  let data ← layoutData (sections.dataLines lines) program.symbols
  let entry := (program.globals.head?.bind fun (name, _) => data.symbols.label? name).getD 0
  return ⟨program.slots, withEntry data.bytes entry, data.symbols, program.breakpoint⟩

def Statement.resolve (symbols : Symbols) (index : Nat) (s : Statement) : Except Diagnostic Statement := do
  let args ← resolveArgs symbols (.ofFlow s.mnemonic.entry.flow index) s.args
  return { s with args := args }

def Layout.resolve (l : Layout) : Except Diagnostic Layout := do
  let slots ← l.slots.toList.zipIdx.mapM fun (slot, index) => slot.mapM (Statement.resolve l.symbols index)
  return { l with slots := slots.toArray }

end Avr

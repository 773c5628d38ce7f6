import Avr.Hardware
import Std.Data.TreeMap.Lemmas

/-!
# The symbol table

* `Table` : labels, constants and register aliases;
* `Binding` : what a name stands for;
* `Symbols.define` : binds a name; a constant may be given a new value, nothing else is bound twice;
* `Symbols.predefined` : the table that every program starts with.
-/

namespace Avr

/-- The three sorts of names. -/
inductive Table
  | label | constant | registerAlias
deriving DecidableEq, Repr

namespace Table

def name : Table → String
  | label => "label"
  | constant => "constant"
  | registerAlias => "register alias"

end Table

/-- What a name stands for. -/
inductive Binding
  | label (index : Nat)
  | constant (value : Int)
  | registerAlias (register : Nat)
deriving DecidableEq, Repr

namespace Binding

def table : Binding → Table
  | label _ => .label
  | constant _ => .constant
  | registerAlias _ => .registerAlias

end Binding

/-- Why a name cannot be bound. -/
inductive DefinitionError
  /-- It is bound already, as the same sort of name. -/
  | redefinition (name : String) (table : Table)
  /-- It is bound already, as another sort of name. -/
  | nameConflict (name : String) (existing attempted : Table)
deriving DecidableEq, Repr

namespace DefinitionError

def message : DefinitionError → String
  | redefinition name table => "Redefinition of " ++ table.name ++ " '" ++ name ++ "'"
  | nameConflict name existing attempted =>
    "Cannot define '" ++ name ++ "' as a " ++ attempted.name ++ ", it is already a " ++ existing.name

end DefinitionError

/-- The names bound so far. A name stands for one thing. -/
structure Symbols where
  bindings : Std.TreeMap String Binding := {}

namespace Symbols

def empty : Symbols := {}

def find? (s : Symbols) (name : String) : Option Binding := s.bindings[name]?

def tableOf? (s : Symbols) (name : String) : Option Table := (s.find? name).map Binding.table

def label? (s : Symbols) (name : String) : Option Nat :=
  match s.find? name with
  | some (.label i) => some i
  | _ => none

def constant? (s : Symbols) (name : String) : Option Int :=
  match s.find? name with
  | some (.constant v) => some v
  | _ => none

def registerAlias? (s : Symbols) (name : String) : Option Nat :=
  match s.find? name with
  | some (.registerAlias r) => some r
  | _ => none

/-- The table with a name bound, whatever it stood for. -/
def bind (s : Symbols) (name : String) (b : Binding) : Symbols := ⟨s.bindings.insert name b⟩

/-- Binds a free name, or gives a constant a new value. -/
def define (s : Symbols) (name : String) (b : Binding) : Except DefinitionError Symbols :=
  match s.tableOf? name with
  | none => .ok (s.bind name b)
  | some existing =>
    if existing = b.table then
      if existing = .constant then .ok (s.bind name b) else .error (.redefinition name existing)
    else .error (.nameConflict name existing b.table)

def labels (s : Symbols) : List (String × Nat) :=
  s.bindings.toList.filterMap fun
    | (name, .label i) => some (name, i)
    | _ => none

theorem find?_bind (s : Symbols) (name name' : String) (b : Binding) :
    (s.bind name b).find? name' = if name' = name then some b else s.find? name' := by
  simp only [find?, bind, Std.TreeMap.getElem?_insert, Std.compare_eq_iff_eq, @eq_comm _ name]

/-! ## Names that every program may use -/

def predefinedAliases : List (String × Nat) :=
  [("XL", 26), ("XH", 27), ("YL", 28), ("YH", 29), ("ZL", 30), ("ZH", 31)]

/-- Input/output cells, as the instructions for them count, and the ends of the memories. -/
def predefinedConstants : List (String × Int) :=
  [("PINB", 0x03), ("DDRB", 0x04), ("PORTB", 0x05), ("PINC", 0x06), ("DDRC", 0x07), ("PORTC", 0x08),
    ("PIND", 0x09), ("DDRD", 0x0A), ("PORTD", 0x0B), ("TIFR0", 0x15), ("EIMSK", 0x1D), ("GPIOR0", 0x1E),
    ("EECR", 0x1F), ("TCCR0A", 0x24), ("TCCR0B", 0x25), ("TCNT0", 0x26), ("OCR0A", 0x27), ("OCR0B", 0x28),
    ("GPIOR1", 0x2A), ("GPIOR2", 0x2B), ("SPCR", 0x2C), ("SPDR", 0x2E), ("SMCR", 0x33), ("MCUCR", 0x35),
    ("SPMCSR", 0x37), ("SPL", 0x3D), ("SPH", 0x3E), ("SREG", 0x3F), ("RAMEND", ramEnd), ("FLASHEND", flashEnd)]

/-- The table that every program starts with. -/
def predefined : Symbols :=
  let aliases := predefinedAliases.foldl (fun s p => s.bind p.1 (.registerAlias p.2)) empty
  predefinedConstants.foldl (fun s p => s.bind p.1 (.constant p.2)) aliases

end Symbols

end Avr

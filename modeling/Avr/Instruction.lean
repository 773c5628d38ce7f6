import Avr.Catalog.Entries
import Avr.Pointer
import Avr.PrintTrap

/-!
# Instructions

* `Operand` : a register, number, pointer or function, and its written form `Operand.text`;
* `Instruction` : a mnemonic with operands, opcode and source line; `Instruction.text` is its written form;
* `Instruction.words` : the opcode as words;
* `Slot` : what one place of program memory holds.
-/

namespace Avr

/-- What an instruction works on. -/
inductive Operand
  | reg (n : Nat)
  | imm (v : Int)
  | ptr (p : Pointer) (m : PointerMode)
  | func (f : PseudoFunc)
deriving DecidableEq, Repr

namespace Operand

def reg? : Operand → Option Nat
  | reg n => some n
  | _ => none

def imm? : Operand → Option Int
  | imm v => some v
  | _ => none

def text : Operand → String
  | reg n => "R" ++ toString n
  | imm v => toString v
  | ptr p .plain => p.name
  | ptr p .postInc => p.name ++ "+"
  | ptr p .preDec => "-" ++ p.name
  | ptr p (.disp q) => p.name ++ "+" ++ toString q
  | func f => f.name

end Operand

/-- An instruction with its opcode, a text of binary digits, and its source line, zero for filler. -/
structure Instruction where
  mnemonic : Mnemonic
  operands : List Operand
  opcode : String
  line : Nat
deriving DecidableEq, Repr

/-- The bits as a number, the first one most significant. -/
def numberOfBits (bits : List Bool) : Nat := bits.foldl (fun n b => 2 * n + b.toNat) 0

/-- Cuts a list into pieces of 16, the last one possibly shorter. -/
def sixteens {α : Type} (l : List α) : List (List α) :=
  if l.isEmpty then [] else l.take 16 :: sixteens (l.drop 16)
termination_by l.length
decreasing_by
  cases l with
  | nil => simp_all
  | cons => simp only [List.length_drop, List.length_cons]; omega

theorem flatten_sixteens {α : Type} (l : List α) : (sixteens l).flatten = l := by
  induction l using sixteens.induct with
  | case1 l hl =>
    rw [sixteens, if_pos hl, List.isEmpty_iff.1 hl]
    rfl
  | case2 l hl ih => rw [sixteens, if_neg hl, List.flatten_cons, ih, List.take_append_drop]

theorem ne_nil_of_mem_sixteens {α : Type} (l : List α) : ∀ row ∈ sixteens l, row ≠ [] := by
  induction l using sixteens.induct with
  | case1 l hl =>
    rw [sixteens, if_pos hl]
    exact fun _ h => absurd h List.not_mem_nil
  | case2 l hl ih =>
    rw [sixteens, if_neg hl, List.forall_mem_cons]
    refine ⟨?_, ih⟩
    rw [Ne, List.take_eq_nil_iff, not_or]
    exact ⟨by decide, fun h => hl (List.isEmpty_iff.2 h)⟩

/-- No row is short if the rows come out even. -/
theorem length_of_mem_sixteens {α : Type} {l : List α} (h : 16 ∣ l.length) : ∀ row ∈ sixteens l, row.length = 16 := by
  induction l using sixteens.induct with
  | case1 l hl =>
    rw [sixteens, if_pos hl]
    exact fun _ h => absurd h List.not_mem_nil
  | case2 l hl ih =>
    have hpos : l.length ≠ 0 := fun h0 => hl (List.isEmpty_iff.2 (List.eq_nil_of_length_eq_zero h0))
    rw [sixteens, if_neg hl, List.forall_mem_cons]
    refine ⟨?_, ih ?_⟩
    · rw [List.length_take]
      omega
    · rw [List.length_drop]
      omega

namespace Instruction

/-- The filler of program memory. -/
def nop : Instruction := ⟨.NOP, [], String.ofList (List.replicate 16 '0'), 0⟩

def width (i : Instruction) : Nat := i.mnemonic.entry.width

/-- The bits of the opcode. A character is one bit, set if it is a `1`, for each byte that it takes. -/
def bits (i : Instruction) : List Bool :=
  i.opcode.toList.flatMap fun c => List.replicate c.utf8Size (c == '1')

/-- The opcode as words, the first one most significant. -/
def words (i : Instruction) : List Word := (sixteens i.bits).map fun bits => BitVec.ofNat 16 (numberOfBits bits)

def text (i : Instruction) : String :=
  if i.operands.isEmpty then i.mnemonic.name
  else i.mnemonic.name ++ " " ++ ", ".intercalate (i.operands.map Operand.text)

end Instruction

/-- What one place of program memory holds: an instruction or the second word of the one before. -/
inductive Slot
  | inst (i : Instruction)
  | continuation
deriving DecidableEq, Repr

namespace Slot

def inst? : Slot → Option Instruction
  | inst i => some i
  | continuation => none

end Slot

end Avr

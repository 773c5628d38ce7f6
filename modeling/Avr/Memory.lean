import Avr.Hardware
import Avr.Text.Hex

/-!
# Data memory

* `Memory` : the cells, and the writes since the last clear with the bits that each one flipped;
* `Memory.read`, `Memory.write` : one cell; `readPair`, `writePair` : two cells as a word;
* `Memory.changed` : the bits of a cell that some write has flipped;
* `Memory.string?` : the bytes up to a zero.

Addresses behind the last cell read as zero and are not written; who may meet them asks `inMemory` first.
-/

namespace Avr

def inMemory (a : Nat) : Bool := decide (a < ramSize)

/-- The cells of data memory, and the writes since the last clear, the latest first: the address and the bits
flipped. -/
structure Memory where
  cells : Vector Byte ramSize
  writes : List (Nat × Byte) := []

namespace Memory

def read (m : Memory) (a : Nat) : Byte := m.cells[a]?.getD 0

def write (m : Memory) (a : Nat) (v : Byte) : Memory :=
  let old := m.read a
  if inMemory a then { cells := m.cells.setIfInBounds a v, writes := (a, old ^^^ v) :: m.writes } else m

/-- The word in two cells, low byte first. -/
def readPair (m : Memory) (a : Nat) : Word := wordOf (m.read a) (m.read (a + 1))

/-- The memory with a word written to two cells, low byte first. -/
def writePair (m : Memory) (a : Nat) (w : Word) : Memory := (m.write a (lowByte w)).write (a + 1) (highByte w)

def clearChanges (m : Memory) : Memory := { m with writes := [] }

/-- The bits of a cell that some write since the last clear has flipped. -/
def changed (m : Memory) (a : Nat) : Byte :=
  m.writes.foldr (fun w bits => if w.1 = a then w.2 ||| bits else bits) 0

/-- The cells with flipped bits: address, value and those bits, by address. -/
def changes (m : Memory) : List (Nat × Byte × Byte) :=
  let masks := m.writes.foldr (fun w (masks : Vector Byte ramSize) =>
    masks.setIfInBounds w.1 (masks[w.1]?.getD 0 ||| w.2)) (Vector.replicate ramSize 0)
  ((m.cells.zip masks).toList.zipIdx.filter fun ((_, bits), _) => bits != 0).map fun ((v, bits), a) => (a, v, bits)

/-- The bytes from `a` up to the next zero, if there is one among the `fuel` cells from there. -/
def stringWithin (m : Memory) : Nat → Nat → Option (List Byte)
  | 0, _ => none
  | fuel + 1, a => if m.read a = 0 then some [] else (m.stringWithin fuel (a + 1)).map (m.read a :: ·)

/-- The bytes from `a` up to the next zero, if memory has one. -/
def string? (m : Memory) (a : Nat) : Option (List Byte) := m.stringWithin (ramSize - a) a

def registerText (m : Memory) : String :=
  String.join ((List.range 4).map fun row =>
    String.join ((List.range 8).map fun i =>
      let r := 8 * row + i
      "R" ++ Text.padRight 2 (toString r) ++ " 0x" ++ Text.hex 2 (m.read r).toNat ++ "  ") ++ "\n")

/-! ## Reading what was written -/

theorem read_write (m : Memory) (a b : Nat) (v : Byte) :
    (m.write a v).read b = if a = b ∧ a < ramSize then v else m.read b := by
  unfold write read inMemory
  by_cases ha : a < ramSize
  · by_cases hab : a = b
    · subst hab
      simp [ha]
    · simp [ha, hab]
  · simp [ha]

theorem read_ofFn (f : Fin ramSize → Byte) {a : Nat} (ha : a < ramSize) :
    ({ cells := Vector.ofFn f } : Memory).read a = f ⟨a, ha⟩ := by
  rw [read, Vector.getElem?_ofFn, dif_pos ha]
  rfl

@[simp] theorem read_clearChanges (m : Memory) (a : Nat) : m.clearChanges.read a = m.read a := rfl

@[simp] theorem changed_clearChanges (m : Memory) (a : Nat) : m.clearChanges.changed a = 0 := rfl

theorem changed_write (m : Memory) (a b : Nat) (v : Byte) :
    (m.write a v).changed b =
      if a = b ∧ a < ramSize then (m.read b ^^^ v) ||| m.changed b else m.changed b := by
  unfold write inMemory
  by_cases ha : a < ramSize
  · by_cases hab : a = b
    · subst hab
      simp [ha, changed]
    · simp [ha, hab, changed]
  · simp [ha]

/-- A text with a zero behind it is read up to there. By induction on the text. -/
theorem stringWithin_eq {m : Memory} {text : List Byte} {a fuel : Nat}
    (htext : ∀ k (hk : k < text.length), m.read (a + k) = text[k] ∧ text[k] ≠ 0) (hzero : m.read (a + text.length) = 0)
    (hfuel : text.length < fuel) : m.stringWithin fuel a = some text := by
  induction text generalizing a fuel with
  | nil =>
    obtain ⟨fuel, rfl⟩ := Nat.exists_eq_add_of_lt hfuel
    exact if_pos hzero
  | cons b text ih =>
    rw [List.length_cons] at hzero hfuel
    obtain ⟨fuel, rfl⟩ := Nat.exists_eq_add_of_lt hfuel
    obtain ⟨hread, hne⟩ := htext 0 (Nat.zero_lt_succ _)
    have hrest : m.stringWithin (text.length + 1 + fuel) (a + 1) = some text := by
      apply ih
      · intro k hk
        have hnext := htext (k + 1) (Nat.succ_lt_succ hk)
        rwa [← Nat.add_assoc, Nat.add_right_comm] at hnext
      · rwa [Nat.add_right_comm]
      · omega
    rw [Nat.add_zero, List.getElem_cons_zero] at hread
    rw [List.getElem_cons_zero] at hne
    rw [stringWithin, hread, if_neg hne, hrest]
    rfl

end Memory

end Avr

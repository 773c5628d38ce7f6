import Avr.Memory

/-!
# Writes and changed bits

* `Memory.Edit`, `Memory.edited` : writes to a cell or a pair of cells, and data memory after some of them;
* `Memory.values`, `Memory.flips` : the values that a cell goes through, and the bits that change on the way;
* `Memory.Tracked` : the changed bits of every cell are those; `tracked_edited` : after any writes they are;
* `Memory.Once` : the cells of a list have been written, each one once, so that the changed bits are the difference.
-/

namespace Avr

namespace Memory

/-! ## Writes in a row -/

/-- A write to data memory: of a cell, or of two cells as a word. -/
inductive Edit
  | cell (a : Nat) (v : Byte)
  | pair (a : Nat) (w : Word)

def Edit.Writes (a : Nat) : Edit → Prop
  | cell b _ => b = a
  | pair b _ => b = a ∨ b + 1 = a

def Edit.apply (m : Memory) : Edit → Memory
  | cell a v => m.write a v
  | pair a w => m.writePair a w

def edited (m : Memory) (es : List Edit) : Memory := es.foldl Edit.apply m

/-- The values that a cell goes through with some writes, the one before them first. -/
def values (m : Memory) : List Edit → Nat → List Byte
  | [], a => [m.read a]
  | e :: es, a => m.read a :: (e.apply m).values es a

/-- The bits in which a value differs from the next one, anywhere in a list. -/
def differences : List Byte → Byte
  | v :: w :: vs => (v ^^^ w) ||| differences (w :: vs)
  | _ => 0

def flips (m : Memory) (es : List Edit) (a : Nat) : Byte := differences (m.values es a)

theorem edited_append (m : Memory) (es es' : List Edit) : m.edited (es ++ es') = (m.edited es).edited es' :=
  List.foldl_append

theorem flips_cons (m : Memory) (e : Edit) (es : List Edit) (a : Nat) :
    m.flips (e :: es) a = (m.read a ^^^ (e.apply m).read a) ||| (e.apply m).flips es a := by
  cases es <;> rfl

/-! ## Changed bits -/

/-- The bits of a write to a cell are marked: those in which the new value differs from the old one. -/
theorem changed_write_eq (m : Memory) (a : Nat) (v : Byte) (b : Nat) :
    (m.write a v).changed b = (m.read b ^^^ (m.write a v).read b) ||| m.changed b := by
  rw [changed_write, read_write]
  split
  · rfl
  · rw [BitVec.xor_self, BitVec.zero_or]

theorem changed_apply (m : Memory) (e : Edit) (a : Nat) :
    (e.apply m).changed a = (m.read a ^^^ (e.apply m).read a) ||| m.changed a := by
  cases e with
  | cell b v => exact changed_write_eq m b v a
  | pair b w =>
    show ((m.write b (lowByte w)).write (b + 1) (highByte w)).changed a = _
    rw [changed_write_eq, changed_write_eq]
    by_cases ha : b = a
    · have hsecond : ((m.write b (lowByte w)).write (b + 1) (highByte w)).read a = (m.write b (lowByte w)).read a := by
        rw [read_write (m.write b (lowByte w)), if_neg (by omega)]
      show _ = (_ ^^^ ((m.write b (lowByte w)).write (b + 1) (highByte w)).read a) ||| _
      rw [hsecond, BitVec.xor_self, BitVec.zero_or]
    · have hfirst : (m.write b (lowByte w)).read a = m.read a := by rw [read_write, if_neg fun h => ha h.1]
      rw [hfirst, BitVec.xor_self, BitVec.zero_or]
      rfl

/-- After some writes the changed bits of a cell are those that some write has flipped. By induction on the writes, with
the memory general. -/
theorem changed_edited (m : Memory) (es : List Edit) (a : Nat) :
    (m.edited es).changed a = m.flips es a ||| m.changed a := by
  induction es generalizing m with
  | nil => exact (BitVec.zero_or).symm
  | cons e es ih =>
    show ((e.apply m).edited es).changed a = _
    rw [ih, changed_apply, flips_cons, ← BitVec.or_assoc, BitVec.or_comm (flips _ _ _)]

theorem read_apply {e : Edit} {a : Nat} (h : ¬ e.Writes a) (m : Memory) : (e.apply m).read a = m.read a := by
  cases e with
  | cell b v => exact (read_write m b a v).trans (if_neg fun hb => h hb.1)
  | pair b w =>
    obtain ⟨hlow, hhigh⟩ := not_or.1 h
    show ((m.write b _).write (b + 1) _).read a = _
    rw [read_write, if_neg (fun hb => hhigh hb.1), read_write, if_neg fun hb => hlow hb.1]

theorem flips_eq_zero {es : List Edit} {a : Nat} (h : ∀ e ∈ es, ¬ e.Writes a) (m : Memory) : m.flips es a = 0 := by
  induction es generalizing m with
  | nil => rfl
  | cons e es ih =>
    obtain ⟨he, hes⟩ := List.forall_mem_cons.1 h
    rw [flips_cons, ih hes, read_apply he, BitVec.xor_self]
    rfl

/-- A bit that is not as it was has been flipped on the way. -/
theorem flips_of_ne {m : Memory} {es : List Edit} {a k : Nat}
    (h : ((m.edited es).read a).getLsbD k ≠ (m.read a).getLsbD k) : (m.flips es a).getLsbD k = true := by
  induction es generalizing m with
  | nil => exact absurd rfl h
  | cons e es ih =>
    rw [flips_cons, BitVec.getLsbD_or, BitVec.getLsbD_xor]
    by_cases hnext : ((e.apply m).read a).getLsbD k = (m.read a).getLsbD k
    · have hrest : ((e.apply m).flips es a).getLsbD k = true := ih fun hsame => h (hsame.trans hnext)
      rw [hrest, Bool.or_true]
    · rw [show ((m.read a).getLsbD k ^^ ((e.apply m).read a).getLsbD k) = true from bne_iff_ne.2 (Ne.symm hnext),
        Bool.true_or]

/-- The changed bits after some writes, as a host relies on them. -/
structure Tracked (m₀ : Memory) (es : List Edit) (m : Memory) : Prop where
  union : ∀ a, m.changed a = m₀.flips es a
  covers : ∀ a k, (m.read a).getLsbD k ≠ (m₀.read a).getLsbD k → (m.changed a).getLsbD k = true
  untouched : ∀ a, (∀ e ∈ es, ¬ e.Writes a) → m.changed a = 0

/-- Change tracking misses nothing, whatever is written behind a clear. -/
theorem tracked_edited (m : Memory) (es : List Edit) : Tracked m.clearChanges es (m.clearChanges.edited es) := by
  have hunion (a : Nat) : (m.clearChanges.edited es).changed a = m.clearChanges.flips es a := by
    rw [changed_edited, changed_clearChanges]
    exact BitVec.or_zero
  refine ⟨hunion, fun a k h => ?_, fun a h => ?_⟩
  · rw [hunion]
    exact flips_of_ne h
  · rw [hunion]
    exact flips_eq_zero h _

/-! ## Cells written once -/

/-- The second memory comes from the first one by writes to the cells of a list, each of which still had its old value
then. So the bits that changed since are the difference. -/
structure Once (W : List Nat) (m m' : Memory) : Prop where
  edits : ∃ es, m' = m.edited es
  marks : ∀ a, m'.changed a = (m.read a ^^^ m'.read a) ||| m.changed a
  cells : ∀ a, a ∉ W → m'.read a = m.read a

theorem edited_concat (m : Memory) (es : List Edit) (e : Edit) : m.edited (es ++ [e]) = e.apply (m.edited es) :=
  edited_append m es [e]

namespace Once

variable {W : List Nat} {m m' : Memory}

theorem refl (m : Memory) : Once [] m m := by
  refine ⟨⟨[], rfl⟩, fun a => ?_, fun _ _ => rfl⟩
  rw [BitVec.xor_self]
  exact BitVec.zero_or.symm

theorem write_same (h : Once W m m') {a : Nat} (ha : m'.read a = m.read a) (v : Byte) :
    Once (a :: W) m (m'.write a v) := by
  refine ⟨?_, fun b => ?_, fun b hb => ?_⟩
  · obtain ⟨es, rfl⟩ := h.edits
    exact ⟨es ++ [Edit.cell a v], (edited_concat m es (.cell a v)).symm⟩
  · rw [changed_write_eq, h.marks b]
    by_cases hab : a = b
    · subst hab
      rw [ha, BitVec.xor_self, BitVec.zero_or]
    · have hread : (m'.write a v).read b = m'.read b := by rw [read_write, if_neg fun hboth => hab hboth.1]
      rw [hread, BitVec.xor_self, BitVec.zero_or]
  · obtain ⟨hne, hW⟩ := not_or.1 (mt List.mem_cons.2 hb)
    rw [read_write, if_neg fun hboth => hne hboth.1.symm]
    exact h.cells b hW

theorem write (h : Once W m m') {a : Nat} (ha : a ∉ W) (v : Byte) : Once (a :: W) m (m'.write a v) :=
  h.write_same (h.cells a ha) v

theorem writePair (h : Once W m m') {a : Nat} (hlow : a ∉ W) (hhigh : a + 1 ∉ W) (w : Word) :
    Once ((a + 1) :: a :: W) m (m'.writePair a w) := by
  have hnew : a + 1 ∉ a :: W := by
    rw [List.mem_cons, not_or]
    exact ⟨Nat.succ_ne_self a, hhigh⟩
  exact (h.write hlow _).write hnew _

theorem writeAll (h : Once W m m') {as : List Nat} (hnodup : as.Nodup) (hW : ∀ a ∈ as, a ∉ W) (v : Byte) :
    ∃ W', Once W' m (as.foldl (fun n a => n.write a v) m') := by
  induction as generalizing W m' with
  | nil => exact ⟨W, h⟩
  | cons a as ih =>
    obtain ⟨ha, hnodup⟩ := List.nodup_cons.1 hnodup
    obtain ⟨haW, hW⟩ := List.forall_mem_cons.1 hW
    refine ih (h.write haW v) hnodup fun b hb => ?_
    rw [List.mem_cons, not_or]
    exact ⟨fun hba => ha (hba ▸ hb), hW b hb⟩

end Once

end Memory

end Avr

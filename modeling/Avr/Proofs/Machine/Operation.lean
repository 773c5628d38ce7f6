import Mathlib.Algebra.Group.Int.Defs
import Mathlib.Algebra.Group.Nat.Defs
import Avr.Proofs.Machine.Parts

/-!
# Operations: instructions with operands in range

* `unsigned?`, `signed?` : a sum or difference as a 64-bit number, if it is one;
* `Source`, `Target`, `Access`, `Test` : operands that cannot be out of range;
* `Operation` : what an instruction does; `Operation.run` : its outcome, unless a sum of addresses leaves its type;
* `Operation.Raises` : the faults of an operation;
* `Operation.run_error` : a failed operation has raised one of its faults and changed nothing but counters;
* `Operation.run_ok` : one that went well goes to a place in flash or past a skipped instruction.
-/

namespace Avr

variable {γ : Type}

/-! ## Sums of addresses -/

/-- A sum or difference of unsigned 64-bit numbers, if it is one too. -/
def unsigned? (v : Int) : Option Nat := if 0 ≤ v ∧ v < 2 ^ 64 then some v.toNat else none

def signed? (v : Int) : Option Int := if -2 ^ 63 ≤ v ∧ v < 2 ^ 63 then some v else none

theorem unsigned?_eq {v : Int} {n : Nat} (hv : v = n) (hn : n < 2 ^ 64) : unsigned? v = some n := by
  subst hv
  rw [unsigned?, if_pos (by omega), Int.toNat_natCast]

theorem signed?_eq {v : Int} (h : -2 ^ 63 ≤ v ∧ v < 2 ^ 63) : signed? v = some v := if_pos h

def ioCell? (a : Fin 64) : Option Nat := unsigned? (a.val + ioOffset)

/-! ## Operands -/

inductive Source
  | register (r : Fin 32)
  | constant (k : Byte)

/-- Where a jump goes: to a distance from the next slot, to a slot, or where Z points. -/
inductive Target
  | distance (k : Int) (hk : -2048 ≤ k ∧ k ≤ 2047)
  | slot (k : Nat)
  | indirect

/-- The cell that a load or store means: where a pointer points, or an address. -/
inductive Access
  | pointer (p : Pointer) (mode : PointerMode) (h : mode.displacement ≤ 63)
  | direct (a : Fin 65536)

/-- What decides about a skip: two equal registers, or a bit with a value. -/
inductive Test
  | equal (d r : Fin 32)
  | bit (r : Fin 32) (n : Fin 8) (v : Bool)
  | ioBit (a : Fin 64) (n : Fin 8) (v : Bool)

/-- What an instruction does, by operands in range: registers up to 31, pairs from one of up to 30, bits up to 7. -/
inductive Operation
  | combine (d : Fin 32) (s : Source) (f : Byte → Byte → Bool → Bool → Alu.Result Byte)
  | compare (d : Fin 32) (s : Source) (f : Byte → Byte → Bool → Bool → Alu.Result Byte)
  | modify (d : Fin 32) (f : Byte → Bool → Alu.Result Byte)
  | assign (d : Fin 32) (s : Source)
  | swap (d : Fin 32)
  | copyPair (d r : Fin 31)
  | multiply (d r : Fin 32) (f : Byte → Byte → Alu.Result Word)
  | combineWord (d : Fin 31) (k : Word) (f : Word → Word → Alu.Result Word)
  | assignFlag (b : StatusBit) (v : Bool)
  | storeBit (r : Fin 32) (n : Fin 8)
  | loadBit (d : Fin 32) (n : Fin 8)
  | branch (b : StatusBit) (v : Bool) (t : Target)
  | skip (t : Test)
  | assignIoBit (a : Fin 64) (n : Fin 8) (v : Bool)
  | input (d : Fin 32) (a : Fin 64)
  | output (a : Fin 64) (r : Fin 32)
  | load (d : Fin 32) (a : Access)
  | store (a : Access) (r : Fin 32)
  | exchange (r : Fin 32)
  | push (r : Fin 32)
  | pop (d : Fin 32)
  | jump (t : Target)
  | call (t : Target) (width : Fin 3)
  | print
  | ret (enable : Bool)
  | stop
  | nothing

abbrev Outcome (γ : Type) := EStateM.Result Fault (Machine γ) Control

/-! ## Runs -/

def Source.value (m : Machine γ) : Source → Byte
  | register r => m.register r
  | constant k => k

/-- The place that a jump means, in flash or not. -/
def Target.place? (m : Machine γ) : Target → Option Int
  | distance k _ => (signed? (m.pc + 1)).bind fun next => signed? (next + k)
  | slot k => some k
  | indirect => some (m.pointer .Z).toNat

namespace Access

def address? (m : Machine γ) : Access → Option Nat
  | pointer p (.disp q) _ => unsigned? ((m.pointer p).toNat + q)
  | pointer p mode _ => some (m.address p mode).1
  | direct a => some a

/-- The second machine with the pointer as it is after an access in the first one. -/
def update (m : Machine γ) : Access → Machine γ → Machine γ
  | pointer p mode _, m' => m'.updatePointer p (m.address p mode).2
  | direct _, m' => m'

end Access

def Test.holds? (m : Machine γ) : Test → Option Bool
  | equal d r => some (m.register d == m.register r)
  | bit r n v => some ((m.register r).getLsbD n == v)
  | ioBit a n v => (ioCell? a).map fun c => (m.memory.read c).getLsbD n == v

namespace Machine

def jumpTo (m : Machine γ) (k : Int) : Outcome γ :=
  if 0 ≤ k ∧ k < flashSize then .ok (.jump k.toNat) m else .error (.jumpOutOfRange k) m

def skipped? (m : Machine γ) : Option (Outcome γ) := do
  let next ← unsigned? (m.pc + 1)
  let target ← unsigned? (next + m.nextWidth)
  return .ok (.jump target) (m.countTaken m.nextWidth)

/-- The outcome of an access to a cell, which must be there. -/
def withCell (m : Machine γ) (a : Nat) (after : Machine γ) : Outcome γ :=
  if inMemory a then .ok .next after else .error (.addressOutOfRange a) m

def pushed? (m : Machine γ) (v : Byte) : Option (Outcome γ) := do
  let sp := m.sp.toNat
  if sp < ramStart then return .error (.stackOverflow sp) m
  if ramEnd < sp then return .error (.addressOutOfRange sp) m
  let below ← unsigned? (sp - 1)
  return .ok .next ((m.write sp v).setSp (BitVec.ofNat 16 below))

def popped? (m : Machine γ) (d : Fin 32) : Option (Outcome γ) := do
  let sp := m.sp.toNat
  if ramEnd ≤ sp then return .error (.stackUnderflow sp) m
  let top ← unsigned? (sp + 1)
  return .ok .next ((m.setSp (BitVec.ofNat 16 top)).write d (m.memory.read top))

def called? (m : Machine γ) (k : Int) (width : Fin 3) : Option (Outcome γ) := do
  if ¬ (0 ≤ k ∧ k < flashSize) then return .error (.jumpOutOfRange k) m
  let index ← unsigned? (m.pc + width.val)
  let sp := m.sp.toNat
  if sp < ramStart + 1 then return .error (.stackOverflow (min sp (ramStart - 1))) m
  if ramEnd < sp then return .error (.addressOutOfRange sp) m
  let w := BitVec.ofNat 16 index
  let second ← unsigned? (sp - 1)
  let below ← unsigned? (sp - 2)
  return .ok (.jump k.toNat)
    (((m.write sp (lowByte w)).write second (highByte w)).setSp (BitVec.ofNat 16 below))

/-- A return address goes from the stack. Without one the program is over. -/
def returned? (m : Machine γ) (enable : Bool) : Option (Outcome γ) := do
  let sp := m.sp.toNat
  if sp = ramEnd then return .ok .stop m
  let second ← unsigned? (sp + 2)
  if ramEnd < second then return .error (.stackUnderflow (max sp ramEnd)) m
  let first ← unsigned? (sp + 1)
  let target := (wordOf (m.memory.read second) (m.memory.read first)).toNat
  if flashSize ≤ target then return .error (.jumpOutOfRange target) m
  let after := m.setSp (BitVec.ofNat 16 second)
  return .ok (.jump target) (if enable then after.setFlag .I true else after)

def printed? [Console γ] (m : Machine γ) : Option (Outcome γ) := do
  let sp := m.sp.toNat
  let first ← unsigned? (sp + 1)
  if ramEnd < first then return .error (.addressOutOfRange first) m
  let second ← unsigned? (sp + 2)
  if ramEnd < second then return .error (.addressOutOfRange second) m
  let a := (wordOf (m.memory.read second) (m.memory.read first)).toNat
  match m.memory.string? a with
  | some text =>
    return .ok .next (({ m with console := Console.emit m.console text } : Machine γ).afterPrint text.length)
  | none => return .error (.unterminatedString a) m

end Machine

namespace Operation

/-- The outcome of an operation. There is none if a sum of addresses leaves its type. -/
def run [Console γ] (m : Machine γ) : Operation → Option (Outcome γ)
  | combine d s f => some (.ok .next (m.writeResult d (f (m.register d) (s.value m) (m.flag .C) (m.flag .Z))))
  | compare d s f => some (.ok .next (m.applyFlags (f (m.register d) (s.value m) (m.flag .C) (m.flag .Z))))
  | modify d f => some (.ok .next (m.writeResult d (f (m.register d) (m.flag .C))))
  | assign d s => some (.ok .next (m.write d (s.value m)))
  | swap d => some (.ok .next (m.write d ((m.register d).rotateLeft 4)))
  | copyPair d r => some (.ok .next (m.writePair d (m.pair r)))
  | multiply d r f => some (.ok .next (m.writeWordResult 0 (f (m.register d) (m.register r))))
  | combineWord d k f => some (.ok .next (m.writeWordResult d (f (m.pair d) k)))
  | assignFlag b v => some (.ok .next (m.setFlag b v))
  | storeBit r n => some (.ok .next (m.setFlag .T ((m.register r).getLsbD n)))
  | loadBit d n => some (.ok .next (m.write d (Machine.assignBit (m.register d) n (m.flag .T))))
  | branch b v t => if m.flag b = v then (t.place? m).map (m.countTaken 1).jumpTo else some (.ok .next m)
  | skip t => (t.holds? m).bind fun taken => if taken then m.skipped? else some (.ok .next m)
  | assignIoBit a n v => (ioCell? a).map fun c => .ok .next (m.write c (Machine.assignBit (m.memory.read c) n v))
  | input d a => (ioCell? a).map fun c => .ok .next (m.write d (m.memory.read c))
  | output a r => (ioCell? a).map fun c => .ok .next (m.write c (m.register r))
  | load d a => (a.address? m).map fun c => m.withCell c ((a.update m m).write d (m.memory.read c))
  | store a r => (a.address? m).map fun c => m.withCell c (a.update m (m.write c (m.register r)))
  | exchange r =>
    let c := (m.pointer .Z).toNat
    some (m.withCell c ((m.write c (m.register r)).write r (m.memory.read c)))
  | push r => m.pushed? (m.register r)
  | pop d => m.popped? d
  | jump t => (t.place? m).map m.jumpTo
  | call t width => (t.place? m).bind fun k => m.called? k width
  | print => m.printed?
  | ret enable => m.returned? enable
  | stop => some (.ok .stop m)
  | nothing => some (.ok .next m)

/-! ## Faults -/

def Raises : Operation → Fault → Prop
  | load _ _, .addressOutOfRange _ | store _ _, .addressOutOfRange _ | exchange _, .addressOutOfRange _ => True
  | push _, .stackOverflow _ | push _, .addressOutOfRange _ | pop _, .stackUnderflow _ => True
  | branch _ _ _, .jumpOutOfRange _ | jump _, .jumpOutOfRange _ => True
  | call _ _, .jumpOutOfRange _ | call _ _, .stackOverflow _ | call _ _, .addressOutOfRange _ => True
  | ret _, .jumpOutOfRange _ | ret _, .stackUnderflow _ => True
  | print, .addressOutOfRange _ | print, .unterminatedString _ => True
  | _, _ => False

end Operation

namespace Machine

variable {m m' : Machine γ} {f : Fault}

theorem withCell_error {a : Nat} {after : Machine γ} (h : m.withCell a after = .error f m') :
    f = .addressOutOfRange a ∧ m' = m := by
  unfold withCell at h
  split at h <;> cases h
  exact ⟨rfl, rfl⟩

theorem jumpTo_error {k : Int} (h : m.jumpTo k = .error f m') : f = .jumpOutOfRange k ∧ m' = m := by
  unfold jumpTo at h
  split at h <;> cases h
  exact ⟨rfl, rfl⟩

theorem skipped?_ne_error : m.skipped? ≠ some (.error f m') := by
  intro h
  unfold skipped? at h
  obtain ⟨next, -, h⟩ := Option.bind_eq_some_iff.1 h
  obtain ⟨target, -, h⟩ := Option.bind_eq_some_iff.1 h
  cases h

theorem pushed?_error {v : Byte} (h : m.pushed? v = some (.error f m')) :
    (f = .stackOverflow m.sp.toNat ∨ f = .addressOutOfRange m.sp.toNat) ∧ m' = m := by
  unfold pushed? at h
  dsimp only at h
  split at h
  · cases h
    exact ⟨.inl rfl, rfl⟩
  · split at h
    · cases h
      exact ⟨.inr rfl, rfl⟩
    · obtain ⟨below, -, h⟩ := Option.bind_eq_some_iff.1 h
      cases h

theorem popped?_error {d : Fin 32} (h : m.popped? d = some (.error f m')) :
    f = .stackUnderflow m.sp.toNat ∧ m' = m := by
  unfold popped? at h
  dsimp only at h
  split at h
  · cases h
    exact ⟨rfl, rfl⟩
  · obtain ⟨top, -, h⟩ := Option.bind_eq_some_iff.1 h
    cases h

theorem called?_error {k : Int} {width : Fin 3} (h : m.called? k width = some (.error f m')) :
    (f = .jumpOutOfRange k ∨ f = .stackOverflow (min m.sp.toNat (ramStart - 1)) ∨
      f = .addressOutOfRange m.sp.toNat) ∧ m' = m := by
  unfold called? at h
  split at h
  · cases h
    exact ⟨.inl rfl, rfl⟩
  · obtain ⟨index, -, h⟩ := Option.bind_eq_some_iff.1 h
    dsimp only at h
    split at h
    · cases h
      exact ⟨.inr (.inl rfl), rfl⟩
    · split at h
      · cases h
        exact ⟨.inr (.inr rfl), rfl⟩
      · obtain ⟨second, -, h⟩ := Option.bind_eq_some_iff.1 h
        obtain ⟨below, -, h⟩ := Option.bind_eq_some_iff.1 h
        cases h

theorem returned?_error {enable : Bool} (h : m.returned? enable = some (.error f m')) :
    ((∃ k, f = .jumpOutOfRange k) ∨ f = .stackUnderflow (max m.sp.toNat ramEnd)) ∧ m' = m := by
  unfold returned? at h
  dsimp only at h
  split at h
  · cases h
  · obtain ⟨second, -, h⟩ := Option.bind_eq_some_iff.1 h
    split at h
    · cases h
      exact ⟨.inr rfl, rfl⟩
    · obtain ⟨first, -, h⟩ := Option.bind_eq_some_iff.1 h
      split at h
      · cases h
        exact ⟨.inl ⟨_, rfl⟩, rfl⟩
      · cases h

theorem printed?_error [Console γ] (h : m.printed? = some (.error f m')) :
    ((∃ a, f = .addressOutOfRange a) ∨ ∃ a, f = .unterminatedString a) ∧ m' = m := by
  unfold printed? at h
  obtain ⟨first, -, h⟩ := Option.bind_eq_some_iff.1 h
  split at h
  · cases h
    exact ⟨.inl ⟨_, rfl⟩, rfl⟩
  · obtain ⟨second, -, h⟩ := Option.bind_eq_some_iff.1 h
    split at h
    · cases h
      exact ⟨.inl ⟨_, rfl⟩, rfl⟩
    · dsimp only at h
      split at h <;> cases h
      exact ⟨.inr ⟨_, rfl⟩, rfl⟩

end Machine

/-- A failed operation has raised one of its faults. It has done all its checks before it changed anything but the
counters of a branch. -/
theorem Operation.run_error [Console γ] {op : Operation} {m m' : Machine γ} {f : Fault}
    (h : op.run m = some (.error f m')) : op.Raises f ∧ (m' = m ∨ m' = m.countTaken 1) := by
  cases op with
  | branch b v t =>
    rw [run] at h
    split at h
    · obtain ⟨k, -, h⟩ := Option.map_eq_some_iff.1 h
      obtain ⟨rfl, rfl⟩ := Machine.jumpTo_error h
      exact ⟨trivial, .inr rfl⟩
    · cases h
  | skip t =>
    obtain ⟨taken, -, h⟩ := Option.bind_eq_some_iff.1 h
    split at h
    · exact absurd h Machine.skipped?_ne_error
    · cases h
  | assignIoBit a n v | input d a | output a r =>
    rw [run] at h
    obtain ⟨c, -, h⟩ := Option.map_eq_some_iff.1 h
    cases h
  | load d a | store a r =>
    obtain ⟨c, -, h⟩ := Option.map_eq_some_iff.1 h
    obtain ⟨rfl, rfl⟩ := Machine.withCell_error h
    exact ⟨trivial, .inl rfl⟩
  | exchange r =>
    obtain ⟨rfl, rfl⟩ := Machine.withCell_error (Option.some.inj h)
    exact ⟨trivial, .inl rfl⟩
  | push r =>
    obtain ⟨rfl | rfl, rfl⟩ := Machine.pushed?_error h
    · exact ⟨trivial, .inl rfl⟩
    · exact ⟨trivial, .inl rfl⟩
  | pop d =>
    obtain ⟨rfl, rfl⟩ := Machine.popped?_error h
    exact ⟨trivial, .inl rfl⟩
  | jump t =>
    obtain ⟨k, -, h⟩ := Option.map_eq_some_iff.1 h
    obtain ⟨rfl, rfl⟩ := Machine.jumpTo_error h
    exact ⟨trivial, .inl rfl⟩
  | call t width =>
    obtain ⟨k, -, h⟩ := Option.bind_eq_some_iff.1 h
    obtain ⟨rfl | rfl | rfl, rfl⟩ := Machine.called?_error h
    all_goals exact ⟨trivial, .inl rfl⟩
  | print =>
    obtain ⟨⟨a, rfl⟩ | ⟨a, rfl⟩, rfl⟩ := Machine.printed?_error h
    all_goals exact ⟨trivial, .inl rfl⟩
  | ret enable =>
    obtain ⟨⟨k, rfl⟩ | rfl, rfl⟩ := Machine.returned?_error h
    all_goals exact ⟨trivial, .inl rfl⟩
  | _ => cases h

/-! ## What stays -/

/-- Only memory, cycles, taken branches and the console of the second machine may differ from the first one. -/
structure Machine.Frame (m m' : Machine γ) : Prop where
  image : m'.image = m.image
  limit : m'.limit = m.limit
  pc : m'.pc = m.pc
  condition : m'.condition = m.condition
  counts : m'.counts = m.counts
  steps : m'.stats.steps = m.stats.steps

namespace Machine

variable {m m' : Machine γ} {c : Control}

namespace Frame

theorem refl (m : Machine γ) : m.Frame m := ⟨rfl, rfl, rfl, rfl, rfl, rfl⟩

theorem write (h : m.Frame m') (a : Nat) (v : Byte) : m.Frame (m'.write a v) :=
  ⟨h.image, h.limit, h.pc, h.condition, h.counts, h.steps⟩

theorem writePair (h : m.Frame m') (a : Nat) (w : Word) : m.Frame (m'.writePair a w) :=
  ⟨h.image, h.limit, h.pc, h.condition, h.counts, h.steps⟩

theorem setSp (h : m.Frame m') (w : Word) : m.Frame (m'.setSp w) := h.writePair _ w

theorem setFlag (h : m.Frame m') (b : StatusBit) (v : Bool) : m.Frame (m'.setFlag b v) := h.write _ _

theorem applyFlags {α : Type} (h : m.Frame m') (r : Alu.Result α) : m.Frame (m'.applyFlags r) := h.write _ _

theorem updatePointer (h : m.Frame m') (p : Pointer) (update : Option Word) : m.Frame (m'.updatePointer p update) := by
  cases update with
  | some w => exact h.writePair _ w
  | none => exact h

theorem update (h : m.Frame m') (a : Access) (n : Machine γ) : m.Frame (a.update n m') := by
  cases a with
  | pointer p mode hmode => exact h.updatePointer p _
  | direct a => exact h

theorem countTaken (h : m.Frame m') (cycles : Nat) : m.Frame (m'.countTaken cycles) :=
  ⟨h.image, h.limit, h.pc, h.condition, h.counts, h.steps⟩

theorem withConsole (h : m.Frame m') (console : γ) : m.Frame { m' with console := console } :=
  ⟨h.image, h.limit, h.pc, h.condition, h.counts, h.steps⟩

theorem afterPrint (h : m.Frame m') (length : Nat) : m.Frame (m'.afterPrint length) :=
  afterPrint_induction (fun _ r _ v hn => hn.write r v) h length

end Frame

/-- The place that a transfer of control goes to: in flash, or past the next instruction. -/
def Goes (m : Machine γ) : Control → Prop
  | .jump target => target < flashSize ∨ target = m.pc + 1 + m.nextWidth
  | _ => True

theorem jumpTo_ok {k : Int} (h : m.jumpTo k = .ok c m') : m' = m ∧ m.Goes c := by
  unfold jumpTo at h
  split at h
  · next hk =>
    cases h
    exact ⟨rfl, .inl (by omega)⟩
  · cases h

theorem skipped?_ok (h : m.skipped? = some (.ok c m')) : m' = m.countTaken m.nextWidth ∧ m.Goes c := by
  unfold skipped? at h
  obtain ⟨next, hnext, h⟩ := Option.bind_eq_some_iff.1 h
  obtain ⟨target, htarget, h⟩ := Option.bind_eq_some_iff.1 h
  cases h
  refine ⟨rfl, .inr ?_⟩
  unfold unsigned? at hnext htarget
  split at hnext <;> cases hnext
  split at htarget <;> cases htarget
  omega

theorem withCell_ok {a : Nat} {after : Machine γ} (h : m.withCell a after = .ok c m') : c = .next ∧ m' = after := by
  unfold withCell at h
  split at h <;> cases h
  exact ⟨rfl, rfl⟩

theorem pushed?_ok {v : Byte} (h : m.pushed? v = some (.ok c m')) :
    c = .next ∧ ramStart ≤ m.sp.toNat ∧ ∃ below, m' = (m.write m.sp.toNat v).setSp below := by
  unfold pushed? at h
  dsimp only at h
  split at h
  · cases h
  · next hlow =>
    split at h
    · cases h
    · obtain ⟨below, -, h⟩ := Option.bind_eq_some_iff.1 h
      cases h
      exact ⟨rfl, Nat.le_of_not_lt hlow, _, rfl⟩

theorem popped?_ok {d : Fin 32} (h : m.popped? d = some (.ok c m')) :
    c = .next ∧ ∃ top v, m' = (m.setSp top).write d v := by
  unfold popped? at h
  dsimp only at h
  split at h
  · cases h
  · obtain ⟨top, -, h⟩ := Option.bind_eq_some_iff.1 h
    cases h
    exact ⟨rfl, _, _, rfl⟩

theorem called?_ok {k : Int} {width : Fin 3} (h : m.called? k width = some (.ok c m')) :
    (0 ≤ k ∧ k < flashSize ∧ c = .jump k.toNat) ∧ ramStart < m.sp.toNat ∧
      ∃ low high below, m' = ((m.write m.sp.toNat low).write (m.sp.toNat - 1) high).setSp below := by
  unfold called? at h
  split at h
  · cases h
  · next hk =>
    obtain ⟨hlow, hhigh⟩ := Decidable.not_not.1 hk
    obtain ⟨index, -, h⟩ := Option.bind_eq_some_iff.1 h
    dsimp only at h
    split at h
    · cases h
    · next hroom =>
      split at h
      · cases h
      · obtain ⟨second, hsecond, h⟩ := Option.bind_eq_some_iff.1 h
        obtain ⟨below, -, h⟩ := Option.bind_eq_some_iff.1 h
        cases h
        have hbelow : second = m.sp.toNat - 1 := by
          unfold unsigned? at hsecond
          split at hsecond <;> cases hsecond
          omega
        exact ⟨⟨hlow, hhigh, rfl⟩, Nat.le_of_not_lt hroom, _, _, _, by rw [hbelow]⟩

theorem returned?_ok {enable : Bool} (h : m.returned? enable = some (.ok c m')) :
    (c = .stop ∧ m' = m) ∨ ∃ target top, target < flashSize ∧ c = .jump target ∧
      m' = if enable then (m.setSp top).setFlag .I true else m.setSp top := by
  unfold returned? at h
  dsimp only at h
  split at h
  · cases h
    exact .inl ⟨rfl, rfl⟩
  · obtain ⟨second, -, h⟩ := Option.bind_eq_some_iff.1 h
    split at h
    · cases h
    · obtain ⟨first, -, h⟩ := Option.bind_eq_some_iff.1 h
      split at h
      · cases h
      · next htarget =>
        cases h
        exact .inr ⟨_, _, Nat.not_le.1 htarget, rfl, rfl⟩

theorem printed?_ok [Console γ] (h : m.printed? = some (.ok c m')) :
    c = .next ∧ ∃ text : List Byte,
      m' = ({ m with console := Console.emit m.console text } : Machine γ).afterPrint text.length := by
  unfold printed? at h
  obtain ⟨first, -, h⟩ := Option.bind_eq_some_iff.1 h
  split at h
  · cases h
  · obtain ⟨second, -, h⟩ := Option.bind_eq_some_iff.1 h
    split at h
    · cases h
    · dsimp only at h
      split at h <;> cases h
      exact ⟨rfl, _, rfl⟩

end Machine

/-- An operation that went well has left alone what instructions leave alone, and goes to a place in flash or past the
next instruction. -/
theorem Operation.run_ok [Console γ] {op : Operation} {m m' : Machine γ} {c : Control}
    (h : op.run m = some (.ok c m')) : m.Frame m' ∧ m.Goes c := by
  have hrefl := Machine.Frame.refl m
  cases op with
  | combine d s f | modify d f =>
    cases h
    exact ⟨(hrefl.write _ _).applyFlags _, trivial⟩
  | compare d s f =>
    cases h
    exact ⟨hrefl.applyFlags _, trivial⟩
  | assign d s | swap d | loadBit d n =>
    cases h
    exact ⟨hrefl.write _ _, trivial⟩
  | copyPair d r =>
    cases h
    exact ⟨hrefl.writePair _ _, trivial⟩
  | multiply d r f | combineWord d k f =>
    cases h
    exact ⟨(hrefl.writePair _ _).applyFlags _, trivial⟩
  | assignFlag b v | storeBit r n =>
    cases h
    exact ⟨hrefl.setFlag _ _, trivial⟩
  | branch b v t =>
    rw [run] at h
    split at h
    · obtain ⟨k, -, h⟩ := Option.map_eq_some_iff.1 h
      obtain ⟨rfl, hgoes⟩ := Machine.jumpTo_ok h
      exact ⟨hrefl.countTaken 1, hgoes⟩
    · cases h
      exact ⟨hrefl, trivial⟩
  | skip t =>
    obtain ⟨taken, -, h⟩ := Option.bind_eq_some_iff.1 h
    split at h
    · obtain ⟨rfl, hgoes⟩ := Machine.skipped?_ok h
      exact ⟨hrefl.countTaken _, hgoes⟩
    · cases h
      exact ⟨hrefl, trivial⟩
  | assignIoBit a n v | input d a | output a r =>
    rw [run] at h
    obtain ⟨cell, -, h⟩ := Option.map_eq_some_iff.1 h
    cases h
    exact ⟨hrefl.write _ _, trivial⟩
  | load d a =>
    obtain ⟨cell, -, h⟩ := Option.map_eq_some_iff.1 h
    obtain ⟨rfl, rfl⟩ := Machine.withCell_ok h
    exact ⟨(hrefl.update a m).write _ _, trivial⟩
  | store a r =>
    obtain ⟨cell, -, h⟩ := Option.map_eq_some_iff.1 h
    obtain ⟨rfl, rfl⟩ := Machine.withCell_ok h
    exact ⟨(hrefl.write _ _).update a m, trivial⟩
  | exchange r =>
    obtain ⟨rfl, rfl⟩ := Machine.withCell_ok (Option.some.inj h)
    exact ⟨(hrefl.write _ _).write _ _, trivial⟩
  | push r =>
    obtain ⟨rfl, -, below, rfl⟩ := Machine.pushed?_ok h
    exact ⟨(hrefl.write _ _).setSp _, trivial⟩
  | pop d =>
    obtain ⟨rfl, top, v, rfl⟩ := Machine.popped?_ok h
    exact ⟨(hrefl.setSp _).write _ _, trivial⟩
  | jump t =>
    obtain ⟨k, -, h⟩ := Option.map_eq_some_iff.1 h
    obtain ⟨rfl, hgoes⟩ := Machine.jumpTo_ok h
    exact ⟨hrefl, hgoes⟩
  | call t width =>
    obtain ⟨k, -, h⟩ := Option.bind_eq_some_iff.1 h
    obtain ⟨⟨hlow, hhigh, rfl⟩, -, low, high, below, rfl⟩ := Machine.called?_ok h
    exact ⟨((hrefl.write _ _).write _ _).setSp _, .inl (by omega)⟩
  | print =>
    obtain ⟨rfl, text, rfl⟩ := Machine.printed?_ok h
    exact ⟨(hrefl.withConsole _).afterPrint _, trivial⟩
  | ret enable =>
    obtain ⟨rfl, rfl⟩ | ⟨target, top, htarget, rfl, rfl⟩ := Machine.returned?_ok h
    · exact ⟨hrefl, trivial⟩
    · refine ⟨?_, .inl htarget⟩
      cases enable with
      | true => exact (hrefl.setSp _).setFlag _ _
      | false => exact hrefl.setSp _
  | stop | nothing =>
    cases h
    exact ⟨hrefl, trivial⟩

end Avr

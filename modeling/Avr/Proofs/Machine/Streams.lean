import Avr.Proofs.Machine.Returns

/-!
# Bytes streamed through a pointer

* `Machine.Keeps`, `Machine.Aims` : what a pointer and data memory hold, and changes that leave both alone;
* `Beside`, `Feeds` : registers outside a pointer's own pair, and what gives them a byte;
* `Aims.store`, `Aims.load`, `Aims.peek` : one byte stored behind a pointer, loaded in front of it, or loaded above it;
* `overlaid` : data memory with bytes laid over it;
* `storeAll`, `loadAll` : an instruction repeated, to store bytes given in turn, or to collect what it loads;
* `streams` : bytes stored upwards are in data memory, and are loaded downwards and by displacement.
-/

namespace Avr

variable {γ : Type}

def Instruction.Spells (i : Instruction) (k : Mnemonic) (ops : List Operand) : Prop := i.mnemonic = k ∧ i.operands = ops

namespace Machine

/-! ## Pointers and data -/

/-- A pointer and the cells for data are as before. -/
structure Keeps (p : Pointer) (m m' : Machine γ) : Prop where
  pointer : m'.pointer p = m.pointer p
  cells : ∀ a, ramStart ≤ a → m'.memory.read a = m.memory.read a

/-- A pointer holds an address, and the cells for data hold these bytes. -/
structure Aims (m : Machine γ) (p : Pointer) (a : Nat) (data : Nat → Byte) : Prop where
  pointer : (m.pointer p).toNat = a
  cells : ∀ b, ramStart ≤ b → m.memory.read b = data b

theorem Keeps.refl (p : Pointer) (m : Machine γ) : Keeps p m m := ⟨rfl, fun _ _ => rfl⟩

theorem Aims.keep {m m' : Machine γ} {p : Pointer} {a : Nat} {data : Nat → Byte} (h : m.Aims p a data)
    (hk : Keeps p m m') : m'.Aims p a data := by
  constructor
  · rw [hk.pointer]
    exact h.pointer
  · intro b hb
    rw [hk.cells b hb]
    exact h.cells b hb

section Pointers

variable (p : Pointer)

theorem highRegister_lt : p.highRegister < registerCount := by cases p <;> decide

theorem pointer_write {d : Nat} (hlow : d ≠ p.lowRegister) (hhigh : d ≠ p.highRegister) (m : Machine γ) (v : Byte) :
    (m.write d v).pointer p = m.pointer p := by
  change wordOf ((m.memory.write d v).read p.lowRegister) ((m.memory.write d v).read p.highRegister) = _
  rw [Memory.read_write, if_neg (fun h => hlow h.1), Memory.read_write, if_neg (fun h => hhigh h.1)]
  rfl

theorem pointer_writePair (m : Machine γ) (w : Word) : (m.writePair p.lowRegister w).pointer p = w := by
  have hsize : registerCount < ramSize := by decide
  have hhigh := highRegister_lt p
  have hpair : p.highRegister = p.lowRegister + 1 := rfl
  change wordOf (((m.memory.write p.lowRegister _).write p.highRegister _).read p.lowRegister)
    (((m.memory.write p.lowRegister _).write p.highRegister _).read p.highRegister) = w
  rw [Memory.read_write, if_neg (by omega), Memory.read_write, if_pos (by omega), Memory.read_write,
    if_pos (by omega), wordOf_bytes]

theorem read_write_data {d a : Nat} (hd : d < registerCount) (ha : ramStart ≤ a) (m : Machine γ) (v : Byte) :
    (m.write d v).memory.read a = m.memory.read a := by
  have hstart : registerCount < ramStart := by decide
  rw [read_write_register m hd, if_neg (by omega)]

theorem read_writePair_data {a : Nat} (ha : ramStart ≤ a) (m : Machine γ) (w : Word) :
    (m.writePair p.lowRegister w).memory.read a = m.memory.read a := by
  have hhigh := highRegister_lt p
  have hlow : p.lowRegister < registerCount := Nat.lt_of_succ_lt hhigh
  exact (read_write_data hhigh ha (m.write p.lowRegister _) _).trans (read_write_data hlow ha m _)

end Pointers

/-- A register outside a pointer's own pair. -/
structure Beside (p : Pointer) (r : Nat) : Prop where
  register : r < registerCount
  low : r ≠ p.lowRegister
  high : r ≠ p.highRegister

theorem Beside.keeps {p : Pointer} {r : Nat} (hr : Beside p r) (m : Machine γ) (v : Byte) : Keeps p m (m.write r v) :=
  ⟨pointer_write p hr.low hr.high m v, fun _ ha => read_write_data hr.register ha m v⟩

theorem Beside.register_write {p : Pointer} {r : Nat} (hr : Beside p r) (m : Machine γ) (v : Byte) :
    (m.write r v).register r = v :=
  (read_write_register m hr.register v r).trans (if_pos rfl)

/-- What gives a byte to a register and leaves a pointer and data alone. -/
def Feeds (p : Pointer) (r : Nat) (give : Byte → Machine γ → Machine γ) : Prop :=
  ∀ b m, Keeps p m (give b m) ∧ (give b m).register r = b

theorem Beside.feeds {p : Pointer} {r : Nat} (hr : Beside p r) :
    Feeds p r fun b (m : Machine γ) => m.write r b :=
  fun b m => ⟨hr.keeps m b, hr.register_write m b⟩

/-! ## One byte -/

section Steps

variable [Console γ] {m : Machine γ} {p : Pointer} {r a : Nat} {data : Nat → Byte} {i : Instruction}

theorem execute_store (hi : i.Spells .ST [.ptr p .postInc, .reg r]) (m : Machine γ) :
    (execute i : Exec γ Control) m = (store (m.pointer p).toNat (m.register r) >>= fun _ =>
      thenNext fun n => n.writePair p.lowRegister (m.pointer p + 1)) m := by
  obtain ⟨mn, ops, o, l⟩ := i
  obtain ⟨rfl, rfl⟩ := hi
  rfl

theorem execute_loadBelow (hi : i.Spells .LD [.reg r, .ptr p .preDec]) (m : Machine γ) :
    (execute i : Exec γ Control) m = (load (m.pointer p - 1).toNat >>= fun b =>
      thenNext fun n => (n.writePair p.lowRegister (m.pointer p - 1)).write r b) m := by
  obtain ⟨mn, ops, o, l⟩ := i
  obtain ⟨rfl, rfl⟩ := hi
  rfl

theorem execute_loadAbove {q : Nat} (hi : i.Spells .LDD [.reg r, .ptr p (.disp q)]) (m : Machine γ) :
    (execute i : Exec γ Control) m = (load ((m.pointer p).toNat + q) >>= fun b => thenNext fun n => n.write r b) m := by
  obtain ⟨mn, ops, o, l⟩ := i
  obtain ⟨rfl, rfl⟩ := hi
  rfl

/-- A byte is stored where the pointer aims, and the pointer goes on. -/
theorem Aims.store (h : m.Aims p a data) (hi : i.Spells .ST [.ptr p .postInc, .reg r]) (ha : a < ramSize) :
    ∃ m', (execute i : Exec γ Control) m = .ok .next m' ∧
      m'.Aims p (a + 1) (Function.update data a (m.register r)) := by
  have hpointer := h.pointer
  have hsize : ramSize < 2 ^ 16 := by decide
  have hin : inMemory (m.pointer p).toNat = true := by rw [hpointer, inMemory, decide_eq_true ha]
  refine ⟨(m.write (m.pointer p).toNat (m.register r)).writePair p.lowRegister (m.pointer p + 1), ?_, ?_,
    fun b hb => ?_⟩
  · rw [execute_store hi, bind_run_ok (store_ok hin _ m)]
    rfl
  · rw [pointer_writePair, BitVec.toNat_add, hpointer]
    exact Nat.mod_eq_of_lt (show a + 1 < 2 ^ 16 by omega)
  · rw [read_writePair_data p hb, hpointer]
    change (m.memory.write a (m.register r)).read b = _
    rw [Memory.read_write, Function.update_apply]
    by_cases hab : a = b
    · rw [if_pos ⟨hab, ha⟩, if_pos hab.symm]
    · rw [if_neg fun hboth => hab hboth.1, if_neg (Ne.symm hab)]
      exact h.cells b hb

/-- The pointer goes back, and the byte is loaded that it then aims at. -/
theorem Aims.load (h : m.Aims p (a + 1) data) (hr : Beside p r) (hi : i.Spells .LD [.reg r, .ptr p .preDec])
    (hstart : ramStart ≤ a) (ha : a < ramSize) :
    ∃ m', (execute i : Exec γ Control) m = .ok .next m' ∧ m'.Aims p a data ∧ m'.register r = data a := by
  have hsize : ramSize < 2 ^ 16 := by decide
  have hpointer : (m.pointer p - 1).toNat = a := by
    rw [BitVec.toNat_sub, h.pointer]
    show (2 ^ 16 - 1 + (a + 1)) % 2 ^ 16 = a
    omega
  have hin : inMemory (m.pointer p - 1).toNat = true := by rw [hpointer, inMemory, decide_eq_true ha]
  have haims : (m.writePair p.lowRegister (m.pointer p - 1)).Aims p a data :=
    ⟨by rw [pointer_writePair, hpointer], fun b hb => (read_writePair_data p hb m _).trans (h.cells b hb)⟩
  refine ⟨_, ?_, haims.keep (hr.keeps _ (m.memory.read (m.pointer p - 1).toNat)), ?_⟩
  · rw [execute_loadBelow hi, bind_run_ok (load_ok hin m)]
    rfl
  · rw [hr.register_write, hpointer]
    exact h.cells a hstart

/-- The byte at a distance above the pointer is loaded. -/
theorem Aims.peek (h : m.Aims p a data) (hr : Beside p r) {q : Nat} (hi : i.Spells .LDD [.reg r, .ptr p (.disp q)])
    (hstart : ramStart ≤ a) (ha : a + q < ramSize) :
    ∃ m', (execute i : Exec γ Control) m = .ok .next m' ∧ Keeps p m m' ∧ m'.register r = data (a + q) := by
  have hpointer := h.pointer
  have hin : inMemory ((m.pointer p).toNat + q) = true := by rw [hpointer, inMemory, decide_eq_true ha]
  refine ⟨_, ?_, hr.keeps m (m.memory.read ((m.pointer p).toNat + q)), ?_⟩
  · rw [execute_loadAbove hi, bind_run_ok (load_ok hin m)]
    rfl
  · rw [hr.register_write, hpointer]
    exact h.cells (a + q) (by omega)

/-! ## Many bytes -/

/-- Data memory with bytes laid over it from an address on. -/
def overlaid (data : Nat → Byte) (base : Nat) (bs : List Byte) (a : Nat) : Byte :=
  if base ≤ a then bs[a - base]?.getD (data a) else data a

theorem overlaid_nil (data : Nat → Byte) (base : Nat) : overlaid data base [] = data := by
  funext a
  exact ite_self _

theorem overlaid_update (data : Nat → Byte) (base : Nat) (b : Byte) (bs : List Byte) :
    overlaid (Function.update data base b) (base + 1) bs = overlaid data base (b :: bs) := by
  funext a
  simp only [overlaid]
  obtain hlt | rfl | hgt := Nat.lt_trichotomy a base
  · rw [if_neg (by omega), if_neg (by omega), Function.update_of_ne (by omega)]
  · rw [if_neg (by omega), if_pos (Nat.le_refl a), Function.update_self, Nat.sub_self]
    rfl
  · rw [if_pos (by omega), if_pos (by omega), Function.update_of_ne (by omega),
      show a - base = a - (base + 1) + 1 by omega, List.getElem?_cons_succ]

theorem overlaid_inside (data : Nat → Byte) (base : Nat) {bs : List Byte} {k : Nat} (hk : k < bs.length) :
    overlaid data base bs (base + k) = bs[k] := by
  rw [overlaid, if_pos (Nat.le_add_right _ _), Nat.add_sub_cancel_left, List.getElem?_eq_getElem hk]
  rfl

theorem overlaid_outside (data : Nat → Byte) {base a : Nat} {bs : List Byte} (ha : a < base ∨ base + bs.length ≤ a) :
    overlaid data base bs a = data a := by
  rw [overlaid]
  split
  · rw [List.getElem?_eq_none (by omega)]
    rfl
  · rfl

/-- Gives each byte to the machine in turn and executes the instruction. -/
def storeAll (give : Byte → Machine γ → Machine γ) (i : Instruction) : List Byte → Exec γ Unit
  | [] => pure ()
  | b :: bs => do
    modify (give b)
    let _ ← execute i
    storeAll give i bs

/-- Executes the instruction a number of times: what a register holds after each. -/
def loadAll (r : Nat) (i : Instruction) : Nat → Exec γ (List Byte)
  | 0 => pure []
  | n + 1 => do
    let _ ← execute i
    let b := (← get).register r
    return b :: (← loadAll r i n)

/-- Bytes given in turn are stored one behind the other. By induction on the bytes. -/
theorem Aims.storeAll {give : Byte → Machine γ → Machine γ} (hgive : Feeds p r give)
    (hi : i.Spells .ST [.ptr p .postInc, .reg r]) {bs : List Byte} (h : m.Aims p a data)
    (hroom : a + bs.length ≤ ramSize) :
    ∃ m', Machine.storeAll give i bs m = .ok () m' ∧ m'.Aims p (a + bs.length) (overlaid data a bs) := by
  induction bs generalizing m a data with
  | nil => exact ⟨m, rfl, by rwa [overlaid_nil]⟩
  | cons b bs ih =>
    rw [List.length_cons] at hroom
    obtain ⟨hkeeps, hregister⟩ := hgive b m
    obtain ⟨n, hexecute, hn⟩ := (h.keep hkeeps).store hi (by omega)
    rw [hregister] at hn
    obtain ⟨m', hrest, hm'⟩ := ih hn (by omega)
    refine ⟨m', ?_, ?_⟩
    · refine Eq.trans ?_ hrest
      exact (bind_run_ok rfl).trans (bind_run_ok hexecute)
    · rw [overlaid_update] at hm'
      rwa [List.length_cons, Nat.add_comm bs.length, ← Nat.add_assoc]

/-- Bytes are loaded from the last one down. By induction on their number. -/
theorem Aims.loadAll (hr : Beside p r) (hi : i.Spells .LD [.reg r, .ptr p .preDec]) {n : Nat}
    (h : m.Aims p (a + n) data) (hstart : ramStart ≤ a) (hroom : a + n ≤ ramSize) :
    ∃ m', Machine.loadAll r i n m = .ok ((List.range n).map fun k => data (a + k)).reverse m' ∧ m'.Aims p a data := by
  induction n generalizing m with
  | zero => exact ⟨m, rfl, h⟩
  | succ n ih =>
    have hlast : m.Aims p (a + n + 1) data := h
    obtain ⟨m₁, hexecute, hm₁, hregister⟩ := hlast.load hr hi (by omega) (by omega)
    obtain ⟨m', hrest, hm'⟩ := ih hm₁ (by omega)
    refine ⟨m', ?_, hm'⟩
    rw [List.range_succ, List.map_append, List.reverse_append, List.map_singleton, ← hregister]
    exact (bind_run_ok hexecute).trans ((bind_run_ok (get_run m₁)).trans (bind_run_ok hrest))

/-- Bytes are streamed faithfully through a pointer. Stored upwards one by one they lie in data memory one behind the
other, with the pointer behind them and every other cell for data as before. Loaded downwards they come back in reverse,
with the pointer where it was; from there each is loaded by its displacement. -/
theorem streams (hr : Beside p r) {give : Byte → Machine γ → Machine γ} (hgive : Feeds p r give)
    {st ld : Instruction} {ldd : Nat → Instruction} (hst : st.Spells .ST [.ptr p .postInc, .reg r])
    (hld : ld.Spells .LD [.reg r, .ptr p .preDec]) (hldd : ∀ q, (ldd q).Spells .LDD [.reg r, .ptr p (.disp q)])
    {base : Nat} {bs : List Byte} (hstart : ramStart ≤ base) (hroom : base + bs.length ≤ ramSize) {m : Machine γ}
    (hm : (m.pointer p).toNat = base) :
    ∃ stored, Machine.storeAll give st bs m = .ok () stored ∧
      ((stored.pointer p).toNat = base + bs.length ∧
        (∀ k (hk : k < bs.length), stored.memory.read (base + k) = bs[k]) ∧
        ∀ a, ramStart ≤ a → a < base ∨ base + bs.length ≤ a → stored.memory.read a = m.memory.read a) ∧
      ∃ restored, Machine.loadAll r ld bs.length stored = .ok bs.reverse restored ∧
        ((restored.pointer p).toNat = base ∧
          ∀ a, ramStart ≤ a → restored.memory.read a = stored.memory.read a) ∧
        ∀ n, Keeps p restored n → ∀ q (hq : q < bs.length),
          ∃ n', (execute (ldd q) : Exec γ Control) n = .ok .next n' ∧ n'.register r = bs[q] ∧ Keeps p n n' := by
  have haims : m.Aims p base m.memory.read := ⟨hm, fun _ _ => rfl⟩
  obtain ⟨stored, hstore, hstored⟩ := haims.storeAll hgive hst hroom
  obtain ⟨restored, hload, hrestored⟩ := hstored.loadAll hr hld hstart hroom
  refine ⟨stored, hstore, ⟨hstored.pointer, fun k hk => ?_, fun a ha hout => ?_⟩, restored, ?_,
    ⟨hrestored.pointer, fun a ha => ?_⟩, fun n hn q hq => ?_⟩
  · rw [hstored.cells _ (by omega), overlaid_inside _ _ hk]
  · rw [hstored.cells a ha, overlaid_outside _ hout]
  · have hbytes : ((List.range bs.length).map fun k => overlaid m.memory.read base bs (base + k)) = bs := by
      refine List.ext_getElem (by rw [List.length_map, List.length_range]) fun k hk hk' => ?_
      rw [List.getElem_map, List.getElem_range, overlaid_inside _ _ hk']
    rw [hload, hbytes]
  · rw [hrestored.cells a ha, hstored.cells a ha]
  · obtain ⟨n', hrun, hkeeps, hregister⟩ := (hrestored.keep hn).peek hr (hldd q) hstart (by omega)
    exact ⟨n', hrun, by rw [hregister, overlaid_inside _ _ hq], hkeeps⟩

end Steps

/-- Two bytes stored where the low byte of the pointer runs over, and loaded again. -/
theorem streams_carry :
    let m := (idle 0).writePair 30 0x1FF
    let st : Instruction := ⟨.ST, [.ptr .Z .postInc, .reg 16], "", 1⟩
    let ld : Instruction := ⟨.LD, [.reg 16, .ptr .Z .preDec], "", 2⟩
    Beside .Z 16 ∧ (m.pointer .Z).toNat = 0x1FF ∧
      ∃ stored, storeAll (fun b n => n.write 16 b) st [0x12, 0x34] m = .ok () stored ∧
        (stored.pointer .Z).toNat = 0x201 ∧ stored.memory.read 0x200 = 0x34 ∧
        ∃ restored, loadAll 16 ld 2 stored = .ok [0x34, 0x12] restored ∧ (restored.pointer .Z).toNat = 0x1FF ∧
          ∃ n, execute ⟨.LDD, [.reg 16, .ptr .Z (.disp 1)], "", 3⟩ restored = .ok .next n ∧ n.register 16 = 0x34 := by
  intro m st ld
  have hr : Beside .Z 16 := ⟨by decide, by decide, by decide⟩
  have hm : (m.pointer .Z).toNat = 0x1FF := by rw [show m.pointer .Z = 0x1FF from pointer_writePair .Z _ _]; rfl
  obtain ⟨stored, hstore, ⟨hbehind, hcells, -⟩, restored, hload, ⟨hback, -⟩, hpeek⟩ :=
    streams hr hr.feeds (show st.Spells .ST [.ptr .Z .postInc, .reg 16] from ⟨rfl, rfl⟩)
      (show ld.Spells .LD [.reg 16, .ptr .Z .preDec] from ⟨rfl, rfl⟩)
      (fun q => show (⟨.LDD, [.reg 16, .ptr .Z (.disp q)], "", 3⟩ : Instruction).Spells _ _ from ⟨rfl, rfl⟩) (by decide)
      (show 0x1FF + ([0x12, 0x34] : List Byte).length ≤ ramSize by decide) hm
  obtain ⟨n, hrun, hregister, -⟩ := hpeek restored (.refl _ _) 1 (by decide)
  exact ⟨hr, hm, stored, hstore, hbehind, hcells 1 (by decide), restored, hload, hback, n, hrun, hregister⟩

end Machine

end Avr

import Avr.Proofs.Machine.Parts
import Avr.Proofs.Opcode.Synonym

/-!
# The opcode determines the behaviour

* `Machine.perform` : an instruction executed at the program counter, as `dispatch` does it;
* `Machine.Agrees` : machines that are the same but for how often each mnemonic has been executed;
* `Same` : results of executions that are the same in this sense;
* `perform_synonym` : both ways to write an instruction do the same;
* `perform_agrees_of_opcode_eq` : accepted instructions with equal opcodes do the same.
-/

namespace Avr

open Catalog

variable {γ : Type}

namespace Machine

/-- The machine after an instruction, whatever its program holds. -/
def perform [Console γ] (m : Machine γ) (i : Instruction) : Machine γ :=
  match (execute i).run (m.account i) with
  | .ok control m => m.proceed i control
  | .error fault m => m.fail fault

theorem dispatch_eq_perform [Console γ] {m : Machine γ} {i : Instruction}
    (h : m.image.program[m.pc]? = some (.inst i)) : m.dispatch = m.perform i := by
  unfold dispatch
  rw [h]
  rfl

/-- What an instruction does depends on its mnemonic and its operands only. -/
theorem perform_congr [Console γ] (m : Machine γ) (mn : Mnemonic) (ops : List Operand) (o o' : String) (l l' : Nat) :
    m.perform ⟨mn, ops, o, l⟩ = m.perform ⟨mn, ops, o', l'⟩ := by
  rfl

/-! ## Agreement -/

/-- The machines are the same but for the executions counted by mnemonic. Of the writes since the last clear only the
flipped bits count. -/
structure Agrees (m n : Machine γ) : Prop where
  image : m.image = n.image
  limit : m.limit = n.limit
  cells : m.memory.cells = n.memory.cells
  changed : ∀ a, m.memory.changed a = n.memory.changed a
  pc : m.pc = n.pc
  condition : m.condition = n.condition
  stats : m.stats = n.stats
  console : m.console = n.console

namespace Agrees

theorem refl (m : Machine γ) : m.Agrees m := ⟨rfl, rfl, rfl, fun _ => rfl, rfl, rfl, rfl, rfl⟩

theorem symm {m n : Machine γ} (h : m.Agrees n) : n.Agrees m :=
  ⟨h.image.symm, h.limit.symm, h.cells.symm, fun a => (h.changed a).symm, h.pc.symm, h.condition.symm,
    h.stats.symm, h.console.symm⟩

theorem trans {m n k : Machine γ} (h : m.Agrees n) (h' : n.Agrees k) : m.Agrees k :=
  ⟨h.image.trans h'.image, h.limit.trans h'.limit, h.cells.trans h'.cells,
    fun a => (h.changed a).trans (h'.changed a), h.pc.trans h'.pc, h.condition.trans h'.condition,
    h.stats.trans h'.stats, h.console.trans h'.console⟩

theorem fail {m n : Machine γ} (h : m.Agrees n) (f : Fault) : (m.fail f).Agrees (n.fail f) :=
  ⟨h.image, h.limit, h.cells, h.changed, h.pc, rfl, h.stats, h.console⟩

theorem proceed {m n : Machine γ} (h : m.Agrees n) {i j : Instruction} (hw : i.width = j.width) (c : Control) :
    (m.proceed i c).Agrees (n.proceed j c) := by
  cases c with
  | next =>
    have hpc : m.pc + i.width = n.pc + j.width := by rw [h.pc, hw]
    exact ⟨h.image, h.limit, h.cells, h.changed, hpc, h.condition, h.stats, h.console⟩
  | jump target => exact ⟨h.image, h.limit, h.cells, h.changed, rfl, h.condition, h.stats, h.console⟩
  | stop => exact ⟨h.image, h.limit, h.cells, h.changed, h.pc, rfl, h.stats, h.console⟩

theorem withCounts (m : Machine γ) (counts : Vector Nat Mnemonic.count) : m.Agrees { m with counts := counts } :=
  ⟨rfl, rfl, rfl, fun _ => rfl, rfl, rfl, rfl, rfl⟩

end Agrees

/-! ## Results -/

inductive Same : EStateM.Result Fault (Machine γ) Control → EStateM.Result Fault (Machine γ) Control → Prop
  | ok {m n : Machine γ} (h : m.Agrees n) (c : Control) : Same (.ok c m) (.ok c n)
  | error {m n : Machine γ} (h : m.Agrees n) (f : Fault) : Same (.error f m) (.error f n)

/-- Instructions of one width and one cost do the same if, whatever the counts by mnemonic, their executions have the
same outcome. -/
theorem perform_agrees [Console γ] {i j : Instruction} (m : Machine γ) (hw : i.width = j.width)
    (hcycles : i.mnemonic.entry.cycles = j.mnemonic.entry.cycles)
    (hcond : i.mnemonic.isConditional = j.mnemonic.isConditional)
    (hrun : ∀ (a : Machine γ) counts, Same (execute i a) (execute j { a with counts := counts })) :
    (m.perform i).Agrees (m.perform j) := by
  have haccount : m.account j = { m.account i with counts := (m.account j).counts } := by
    simp only [account, hcycles, hcond]
  unfold perform
  rw [haccount]
  have hsame := hrun (m.account i) (m.account j).counts
  unfold EStateM.run
  revert hsame
  generalize execute i (m.account i) = r
  generalize execute j { m.account i with counts := (m.account j).counts } = r'
  intro hsame
  cases hsame with
  | ok h c => exact h.proceed hw c
  | error h f => exact h.fail f

/-! ## Synonyms -/

theorem same_branchOn (b : StatusBit) (v : Bool) (k : Int) (a : Machine γ) (counts : Vector Nat Mnemonic.count) :
    Same (branchOn b v k a) (branchOn b v k { a with counts := counts }) := by
  have hflag : ({ a with counts := counts } : Machine γ).flag b = a.flag b := rfl
  have hrun : ∀ c : Machine γ, branchOn b v k c = branch (c.flag b == v) k c := fun _ => rfl
  rw [hrun, hrun, hflag]
  cases a.flag b == v with
  | false => exact .ok (Agrees.withCounts _ _) .next
  | true =>
    rw [branch_run, branch_run]
    change Same _ (if 0 ≤ a.relativeTarget k ∧ a.relativeTarget k < flashSize then _ else _)
    split
    · exact .ok (Agrees.withCounts _ _) _
    · exact .error (Agrees.withCounts _ _) _

/-- Memories with the same cells and the same flipped bits. -/
def SameMemory (m n : Memory) : Prop := m.cells = n.cells ∧ ∀ a, m.changed a = n.changed a

theorem SameMemory.read {m n : Memory} (h : SameMemory m n) (a : Nat) : m.read a = n.read a := by
  rw [Memory.read, Memory.read, h.1]

theorem SameMemory.write {m n : Memory} (h : SameMemory m n) (a : Nat) (v : Byte) :
    SameMemory (m.write a v) (n.write a v) := by
  constructor
  · unfold Memory.write
    split
    · exact congrArg (·.setIfInBounds a v) h.1
    · exact h.1
  · intro b
    rw [Memory.changed_write, Memory.changed_write, h.read, h.2]

/-- Writing the value that a cell has flips no bits. -/
theorem sameMemory_write_read (m : Memory) (a : Nat) : SameMemory m (m.write a (m.read a)) := by
  constructor
  · unfold Memory.write
    split
    · ext i hi
      rw [Vector.getElem_setIfInBounds]
      split
      · next h =>
        subst h
        rw [Memory.read, Vector.getElem?_eq_getElem hi, Option.getD_some]
      · rfl
    · rfl
  · intro b
    rw [Memory.changed_write]
    split
    · next h => rw [← h.1, BitVec.xor_self, BitVec.zero_or]
    · rfl

theorem not_ofInt (k : Int) : ~~~BitVec.ofInt 8 k = BitVec.ofInt 8 (255 - k) := by
  rw [show (255 - k : Int) = -k + 255 by ring, BitVec.ofInt_add, BitVec.ofInt_neg, BitVec.not_eq_neg_add,
    BitVec.sub_eq_add_neg]
  rfl

/-- A test of a register is its conjunction with itself: writing it back flips nothing. -/
theorem applyFlags_agrees (a : Machine γ) (counts : Vector Nat Mnemonic.count) (n : Nat) :
    (a.applyFlags (Alu.logic (a.register n))).Agrees
      (({ a with counts := counts } : Machine γ).writeResult n (Alu.logic (a.register n))) := by
  have hsame := sameMemory_write_read a.memory n
  have hsreg := (hsame.read statusCell).symm
  have hboth := hsame.write statusCell ((Alu.logic (a.register n)).apply a.sreg)
  have hmem : (({ a with counts := counts } : Machine γ).writeResult n (Alu.logic (a.register n))).memory =
      (a.memory.write n (a.memory.read n)).write statusCell ((Alu.logic (a.register n)).apply a.sreg) := by
    change (a.memory.write n (a.memory.read n)).write statusCell
      ((Alu.logic (a.register n)).apply ((a.memory.write n (a.memory.read n)).read statusCell)) = _
    rw [hsreg]
    rfl
  exact ⟨rfl, rfl, by rw [hmem]; exact hboth.1, fun b => by rw [hmem]; exact hboth.2 b, rfl, rfl, rfl, rfl⟩

/-- A named branch is one on its status bit. -/
theorem execute_named [Console γ] {m : Mnemonic} {b : StatusBit} {v : Bool} (h : m.branchCondition? = some (b, v))
    (k : Int) (o : String) (l : Nat) : execute ⟨m, [.imm k], o, l⟩ = (branchOn b v k : Exec γ Control) := by
  cases m <;> cases h <;> rfl

theorem execute_bit [Console γ] (b : StatusBit) (v : Bool) (k : Int) (o : String) (l : Nat) :
    execute ⟨branchMnemonic v, [.imm b.index, .imm k], o, l⟩ = (branchOn b v k : Exec γ Control) := by
  cases b <;> cases v <;> rfl

theorem same_synonym [Console γ] {m m' : Mnemonic} {ops ops' : List Operand} (h : Synonym m ops m' ops')
    (o o' : String) (l l' : Nat) (a : Machine γ) (counts : Vector Nat Mnemonic.count) :
    Same (execute ⟨m, ops, o, l⟩ a) (execute ⟨m', ops', o', l'⟩ { a with counts := counts }) := by
  cases h with
  | lsl n =>
    have hi : ∀ c : Machine γ, execute ⟨.LSL, [.reg n], o, l⟩ c =
        .ok .next (c.writeResult n (Alu.add (c.register n) (c.register n) false)) := fun _ => rfl
    have hj : ∀ c : Machine γ, execute ⟨.ADD, [.reg n, .reg n], o', l'⟩ c =
        .ok .next (c.writeResult n (Alu.add (c.register n) (c.register n) false)) := fun _ => rfl
    rw [hi, hj]
    exact .ok (Agrees.withCounts _ _) .next
  | rol n =>
    have hi : ∀ c : Machine γ, execute ⟨.ROL, [.reg n], o, l⟩ c =
        .ok .next (c.writeResult n (Alu.add (c.register n) (c.register n) (c.flag .C))) := fun _ => rfl
    have hj : ∀ c : Machine γ, execute ⟨.ADC, [.reg n, .reg n], o', l'⟩ c =
        .ok .next (c.writeResult n (Alu.add (c.register n) (c.register n) (c.flag .C))) := fun _ => rfl
    rw [hi, hj]
    exact .ok (Agrees.withCounts _ _) .next
  | clr n =>
    have hi : ∀ c : Machine γ, execute ⟨.CLR, [.reg n], o, l⟩ c = .ok .next (c.writeResult n (Alu.logic 0)) :=
      fun _ => rfl
    have hj : ∀ c : Machine γ, execute ⟨.EOR, [.reg n, .reg n], o', l'⟩ c =
        .ok .next (c.writeResult n (Alu.logic (c.register n ^^^ c.register n))) := fun _ => rfl
    rw [hi, hj, BitVec.xor_self]
    exact .ok (Agrees.withCounts _ _) .next
  | tst n =>
    have hi : ∀ c : Machine γ, execute ⟨.TST, [.reg n], o, l⟩ c =
        .ok .next (c.applyFlags (Alu.logic (c.register n))) := fun _ => rfl
    have hj : ∀ c : Machine γ, execute ⟨.AND, [.reg n, .reg n], o', l'⟩ c =
        .ok .next (c.writeResult n (Alu.logic (c.register n &&& c.register n))) := fun _ => rfl
    rw [hi, hj, BitVec.and_self]
    exact .ok (applyFlags_agrees a counts n) .next
  | ser n =>
    have hi : ∀ c : Machine γ, execute ⟨.SER, [.reg n], o, l⟩ c = .ok .next (c.write n 0xFF) := fun _ => rfl
    have hj : ∀ c : Machine γ, execute ⟨.LDI, [.reg n, .imm 255], o', l'⟩ c = .ok .next (c.write n 0xFF) :=
      fun _ => rfl
    rw [hi, hj]
    exact .ok (Agrees.withCounts _ _) .next
  | sbr n k =>
    have hi : ∀ c : Machine γ, execute ⟨.SBR, [.reg n, .imm k], o, l⟩ c =
        .ok .next (c.writeResult n (Alu.logic (c.register n ||| BitVec.ofInt 8 k))) := fun _ => rfl
    have hj : ∀ c : Machine γ, execute ⟨.ORI, [.reg n, .imm k], o', l'⟩ c =
        .ok .next (c.writeResult n (Alu.logic (c.register n ||| BitVec.ofInt 8 k))) := fun _ => rfl
    rw [hi, hj]
    exact .ok (Agrees.withCounts _ _) .next
  | cbr n k =>
    have hi : ∀ c : Machine γ, execute ⟨.CBR, [.reg n, .imm k], o, l⟩ c =
        .ok .next (c.writeResult n (Alu.logic (c.register n &&& ~~~BitVec.ofInt 8 k))) := fun _ => rfl
    have hj : ∀ c : Machine γ, execute ⟨.ANDI, [.reg n, .imm (255 - k)], o', l'⟩ c =
        .ok .next (c.writeResult n (Alu.logic (c.register n &&& BitVec.ofInt 8 (255 - k)))) := fun _ => rfl
    rw [hi, hj, not_ofInt]
    exact .ok (Agrees.withCounts _ _) .next
  | @load n p hp =>
    have hi : ∀ c : Machine γ, execute ⟨.LD, [.reg n, .ptr p .plain], o, l⟩ c =
        if inMemory (c.pointer p).toNat then .ok .next (c.write n (c.memory.read (c.pointer p).toNat))
        else .error (.addressOutOfRange (c.pointer p).toNat) c := by
      intro c
      change (load (c.pointer p).toNat >>= fun b => thenNext fun m => m.write n b) c = _
      by_cases hin : inMemory (c.pointer p).toNat
      · simp only [bind, EStateM.bind, load_run, if_pos hin]
        rfl
      · simp only [bind, EStateM.bind, load_run, if_neg hin]
    have hj : ∀ c : Machine γ, execute ⟨.LDD, [.reg n, .ptr p (.disp 0)], o', l'⟩ c =
        execute ⟨.LD, [.reg n, .ptr p .plain], o, l⟩ c := fun _ => rfl
    rw [hj, hi, hi]
    change Same _ (if inMemory (a.pointer p).toNat then _ else _)
    split
    · exact .ok (Agrees.withCounts _ _) .next
    · exact .error (Agrees.withCounts _ _) _
  | @store n p hp =>
    have hi : ∀ c : Machine γ, execute ⟨.ST, [.ptr p .plain, .reg n], o, l⟩ c =
        if inMemory (c.pointer p).toNat then .ok .next (c.write (c.pointer p).toNat (c.register n))
        else .error (.addressOutOfRange (c.pointer p).toNat) c := by
      intro c
      change (store (c.pointer p).toNat (c.register n) >>= fun _ => thenNext id) c = _
      by_cases hin : inMemory (c.pointer p).toNat
      · simp only [bind, EStateM.bind, store_run, if_pos hin]
        rfl
      · simp only [bind, EStateM.bind, store_run, if_neg hin]
    have hj : ∀ c : Machine γ, execute ⟨.STD, [.ptr p (.disp 0), .reg n], o', l'⟩ c =
        execute ⟨.ST, [.ptr p .plain, .reg n], o, l⟩ c := fun _ => rfl
    rw [hj, hi, hi]
    change Same _ (if inMemory (a.pointer p).toNat then _ else _)
    split
    · exact .ok (Agrees.withCounts _ _) .next
    · exact .error (Agrees.withCounts _ _) _
  | @branch m b v h k =>
    rw [execute_named h, execute_bit]
    exact same_branchOn b v k a counts
  | @flag m b v h =>
    have hi : ∀ c : Machine γ, execute ⟨m, [], o, l⟩ c = .ok .next (c.setFlag b v) := by
      intro c
      cases m <;> cases h <;> rfl
    have hj : ∀ c : Machine γ, execute ⟨flagMnemonic v, [.imm b.index], o', l'⟩ c = .ok .next (c.setFlag b v) := by
      intro c
      cases b <;> cases v <;> rfl
    rw [hi, hj]
    exact .ok (Agrees.withCounts _ _) .next

/-- Both ways to write an instruction take as many words and cycles, and count alike as branches. -/
theorem synonym_costs {m m' : Mnemonic} {ops ops' : List Operand} (h : Synonym m ops m' ops') :
    m.entry.width = m'.entry.width ∧ m.entry.cycles = m'.entry.cycles ∧ m.isConditional = m'.isConditional := by
  cases h with
  | @branch m b v h k => cases m <;> cases h <;> decide +kernel
  | @flag m b v h => cases m <;> cases h <;> decide +kernel
  | _ => decide +kernel

theorem perform_synonym [Console γ] {m m' : Mnemonic} {ops ops' : List Operand} (h : Synonym m ops m' ops')
    (o o' : String) (l l' : Nat) (a : Machine γ) :
    (a.perform ⟨m, ops, o, l⟩).Agrees (a.perform ⟨m', ops', o', l'⟩) := by
  obtain ⟨hw, hcycles, hcond⟩ := synonym_costs h
  exact perform_agrees a hw hcycles hcond fun b counts => same_synonym h o o' l l' b counts

/-- Every admitted instruction does what some canonical one with its opcode does. -/
theorem exists_canonical [Console γ] {m : Mnemonic} {ops : List Operand} (ha : Admitted m ops)
    (hf : ∀ f, .func f ∉ ops) :
    ∃ m' ops', Canonical m' ops' ∧ Admitted m' ops' ∧ (∀ f, .func f ∉ ops') ∧ encode m ops = encode m' ops' ∧
      ∀ (a : Machine γ) (o : String) (l : Nat), (a.perform ⟨m, ops, o, l⟩).Agrees (a.perform ⟨m', ops', o, l⟩) := by
  rcases canonical_or_synonym ha with hc | ⟨m', ops', hs⟩
  · exact ⟨m, ops, hc, ha, hf, rfl, fun a o l => Agrees.refl _⟩
  · exact ⟨m', ops', hs.canonical, hs.admitted ha, hs.func_not_mem, hs.encode_eq,
      fun a o l => perform_synonym hs o o l l a⟩

/-- Accepted instructions with equal opcodes, none of which calls a function of the simulator, do the same to every
machine. -/
theorem perform_agrees_of_opcode_eq [Console γ] {i j : Instruction} (hi : i.Accepted) (hj : j.Accepted)
    (hfi : ∀ f, .func f ∉ i.operands) (hfj : ∀ f, .func f ∉ j.operands) (h : i.opcode = j.opcode) (m : Machine γ) :
    (m.perform i).Agrees (m.perform j) := by
  obtain ⟨mi, opsi, hci, hai, hni, henci, hperfi⟩ := exists_canonical (γ := γ) hi.admitted hfi
  obtain ⟨mj, opsj, hcj, haj, hnj, hencj, hperfj⟩ := exists_canonical (γ := γ) hj.admitted hfj
  have henc : encode mi opsi = encode mj opsj := by rw [← henci, ← hencj, hi.encode, hj.encode, h]
  obtain ⟨rfl, rfl⟩ := canonical_inj hci hcj hai haj hni hnj henc
  have hsame := perform_congr m mi opsi i.opcode j.opcode i.line j.line
  exact (hperfi m i.opcode i.line).trans (hsame ▸ (hperfj m j.opcode j.line).symm)

def constantStatement (m : Mnemonic) (k : Int) : Statement :=
  ⟨m, ⟨1, 1⟩, [⟨.reg 16, "R16", ⟨1, 6⟩⟩, ⟨.comma, ",", ⟨1, 9⟩⟩, Token.ofInt k ⟨1, 11⟩], 1⟩

theorem spelled_constantStatement (m : Mnemonic) (k : Int) : ∀ t ∈ (constantStatement m k).args, t.Spelled := by
  intro t ht
  simp only [constantStatement, List.mem_cons, List.not_mem_nil, or_false] at ht
  rcases ht with rfl | rfl | rfl <;> trivial

/-- `CBR R16, 15` as it is assembled. -/
def clearLowNibble : Instruction := ⟨.CBR, [.reg 16, .imm 15], "0111111100000000", 1⟩

/-- `ANDI R16, 240` as it is assembled. -/
def keepHighNibble : Instruction := ⟨.ANDI, [.reg 16, .imm 240], "0111111100000000", 1⟩

def bareMachine : Machine (Array Byte) := start ⟨#[], Vector.replicate ramSize 0, none, .empty, 0, 0⟩ none #[]

theorem perform_agrees_cbr_andi : clearLowNibble.Accepted ∧ keepHighNibble.Accepted ∧
    clearLowNibble.opcode = keepHighNibble.opcode ∧
      (bareMachine.perform clearLowNibble).Agrees (bareMachine.perform keepHighNibble) := by
  have hcbr : clearLowNibble.Accepted :=
    ⟨constantStatement .CBR 15, spelled_constantStatement .CBR 15, by rfl⟩
  have handi : keepHighNibble.Accepted :=
    ⟨constantStatement .ANDI 240, spelled_constantStatement .ANDI 240, by rfl⟩
  refine ⟨hcbr, handi, rfl, perform_agrees_of_opcode_eq hcbr handi ?_ ?_ rfl bareMachine⟩
  · simp [clearLowNibble]
  · simp [keepHighNibble]

end Machine

end Avr

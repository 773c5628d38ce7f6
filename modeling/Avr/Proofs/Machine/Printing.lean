import Avr.Proofs.Machine.Faults
import Avr.Proofs.Machine.Parallel

/-!
# Printing

* `Memory.bytes` : the bytes of a number of cells; `Memory.EndsAt` : where the first zero from an address on is;
* `EndsAt.string?`, `string?_eq_none` : the text at an address goes up to that zero, or there is none;
* `Instruction.Prints` : the calls of the function that prints; `execute_prints` : what they do;
* `console_execute`, `Steps.console` : no other instruction changes the console;
* `CanPrint`, `Printed` : when a text can be printed, and all that has changed then; `step_prints` : a step does that;
* `print_trap` : all this, for every machine.
-/

namespace Avr

namespace Memory

variable {m : Memory} {a n : Nat}

/-! ## Texts in memory -/

def bytes (m : Memory) (a n : Nat) : List Byte := (List.range n).map fun k => m.read (a + k)

/-- The first zero from `a` on is `n` cells behind it. -/
structure EndsAt (m : Memory) (a n : Nat) : Prop where
  inside : a + n < ramSize
  zero : m.read (a + n) = 0
  before : ∀ k < n, m.read (a + k) ≠ 0

theorem exists_endsAt {b : Nat} (ha : a ≤ b) (hb : b < ramSize) (hzero : m.read b = 0) : ∃ n, m.EndsAt a n := by
  have hexists : ∃ k, m.read (a + k) = 0 := ⟨b - a, by rw [Nat.add_sub_cancel' ha, hzero]⟩
  have hfirst : Nat.find hexists ≤ b - a := Nat.find_min' hexists (by rw [Nat.add_sub_cancel' ha, hzero])
  exact ⟨Nat.find hexists, by omega, Nat.find_spec hexists, fun k hk => Nat.find_min hexists hk⟩

theorem EndsAt.string? (h : m.EndsAt a n) : m.string? a = some (m.bytes a n) := by
  have hlength : (m.bytes a n).length = n := by rw [bytes, List.length_map, List.length_range]
  apply stringWithin_eq
  · intro k hk
    have hbyte : (m.bytes a n)[k] = m.read (a + k) := by simp only [bytes, List.getElem_map, List.getElem_range]
    rw [hbyte]
    exact ⟨rfl, h.before k (hlength ▸ hk)⟩
  · rw [hlength]
    exact h.zero
  · have hinside := h.inside
    omega

theorem stringWithin_eq_none {fuel : Nat} (h : ∀ k < fuel, m.read (a + k) ≠ 0) : m.stringWithin fuel a = none := by
  induction fuel generalizing a with
  | zero => rfl
  | succ fuel ih =>
    have hfirst : m.read a ≠ 0 := h 0 (Nat.zero_lt_succ _)
    have hrest : m.stringWithin fuel (a + 1) = none := by
      apply ih
      intro k hk
      rw [Nat.add_assoc, Nat.add_comm 1 k]
      exact h (k + 1) (Nat.succ_lt_succ hk)
    rw [stringWithin, if_neg hfirst, hrest]
    rfl

theorem string?_eq_none (h : ¬ ∃ b, a ≤ b ∧ b < ramSize ∧ m.read b = 0) : m.string? a = none :=
  stringWithin_eq_none fun k hk hzero => h ⟨a + k, Nat.le_add_right _ _, by omega, hzero⟩

end Memory

/-! ## The instructions that print -/

/-- The instruction calls the function that prints. -/
def Instruction.Prints (i : Instruction) : Prop := i.mnemonic ∈ [.CALL, .RCALL] ∧ i.callsFunc = true

namespace Machine

variable {γ : Type} {m m' : Machine γ} {i : Instruction}

theorem execute_prints [Console γ] (hi : i.Prints) :
    execute i = (print >>= fun _ => pure .next : Exec γ Control) := by
  obtain ⟨hmn, hfunc⟩ := hi
  simp only [List.mem_cons, List.not_mem_nil, or_false] at hmn
  unfold execute
  obtain hmn | hmn := hmn <;> rw [hmn] <;> exact if_pos hfunc

/-! ## The instructions that do not -/

abbrev deaf (γ : Type) : Console γ := ⟨fun console _ => console⟩

/-- An instruction that does not print does not depend on what the console does with a text. -/
theorem execute_of_not_prints (hi : ¬ i.Prints) (c c' : Console γ) :
    (@execute γ c i : Exec γ Control) = @execute γ c' i := by
  obtain ⟨mn, ops, o, l⟩ := i
  unfold execute
  cases mn with
  | CALL | RCALL =>
    have hfunc : ¬ (⟨_, ops, o, l⟩ : Instruction).callsFunc = true := fun h => hi ⟨by simp, h⟩
    dsimp only
    rw [if_neg hfunc, if_neg hfunc]
  | _ => rfl

/-- A machine beside itself, with a console that no text changes. -/
def hushed (m₀ : Machine γ) : @Parallel γ γ (deaf γ) (deaf γ) :=
  letI := deaf γ
  { Rel := fun m n => n = m ∧ m.console = m₀.console
    program := fun h => by rw [h.1]
    memory := fun h => by rw [h.1]
    pc := fun h => by rw [h.1]
    withMemory := fun h _ => by
      obtain ⟨rfl, h⟩ := h
      exact ⟨rfl, h⟩
    emit := fun h _ => by
      obtain ⟨rfl, h⟩ := h
      exact ⟨rfl, h⟩ }

variable [Console γ]

/-- An instruction that does not print leaves the console as it is, whether it fails or not. -/
theorem console_execute (hi : ¬ i.Prints) (m : Machine γ) : (reached (execute i m)).console = m.console := by
  rw [execute_of_not_prints hi _ (deaf γ)]
  let := deaf γ
  have hkept := (hushed m).alike_execute i (fun _ => fun h _ => ⟨by rw [h.1], h.2⟩) m m ⟨rfl, rfl⟩
  generalize execute i m = r at hkept
  cases hkept with
  | ok c h => exact h.2
  | error f h => exact h.2

/-- The console changes only where a machine executes an instruction that prints. -/
theorem Steps.console (h : m.Steps m') : m'.console = m.console ∨ ∃ i, m.AboutTo i ∧ i.Prints := by
  cases h with
  | stopped _ | breakpoint | flashEnd | limit _ | outside _ _ | continuation _ => exact .inl rfl
  | @execution i habout =>
    by_cases hi : i.Prints
    · exact .inr ⟨i, habout, hi⟩
    · have hkept : (reached (execute i (m.ready i))).console = m.console := console_execute hi _
      cases hrun : execute i (m.ready i) with
      | ok c n =>
        rw [hrun] at hkept
        rw [perform_ok hrun]
        cases c <;> exact .inl hkept
      | error f n =>
        rw [hrun] at hkept
        rw [perform_error hrun]
        exact .inl hkept

/-! ## Steps that print -/

/-- The address of the text, high byte on top of the stack. -/
def textAddress (m : Machine γ) : Nat :=
  (m.memory.read (m.sp.toNat + 2)).toNat + 256 * (m.memory.read (m.sp.toNat + 1)).toNat

/-- The address of the text is in memory, and so is a zero behind the text. -/
def CanPrint (m : Machine γ) : Prop :=
  m.sp.toNat + 2 ≤ ramEnd ∧ ∃ b, m.textAddress ≤ b ∧ b < ramSize ∧ m.memory.read b = 0

def printFault (m : Machine γ) : Fault :=
  if ramEnd < m.sp.toNat + 1 then .addressOutOfRange (m.sp.toNat + 1)
  else if ramEnd < m.sp.toNat + 2 then .addressOutOfRange (m.sp.toNat + 2)
  else .unterminatedString m.textAddress

/-- The machine after `n` bytes have been printed, but for its program counter. -/
def printed (m : Machine γ) (n : Nat) : Machine γ :=
  ({ m with console := Console.emit m.console (m.memory.bytes m.textAddress n) } : Machine γ).afterPrint n

/-- All that an instruction changes which prints `n` bytes: they are on the console, two registers hold their number,
and four registers are lost. -/
structure Printed (m : Machine γ) (i : Instruction) (n : Nat) (m' : Machine γ) : Prop where
  running : m'.condition = .running
  console : m'.console = Console.emit m.console (m.memory.bytes m.textAddress n)
  count : (m'.register 24).toNat = n % 256 ∧ (m'.register 25).toNat = n / 256
  clobbered : ∀ r ∈ [26, 27, 30, 31], m'.register r = 0xFF
  kept : ∀ c, c ∉ [24, 25, 26, 27, 30, 31] → m'.memory.read c = m.memory.read c
  pc : m'.pc = m.pc + if i.mnemonic = .CALL then 2 else 1

theorem print_ok (hm : m.CanPrint) :
    ∃ n, m.memory.EndsAt m.textAddress n ∧ (print : Exec γ Unit) m = .ok () (m.printed n) := by
  obtain ⟨hsp, b, ha, hb, hzero⟩ := hm
  obtain ⟨n, hn⟩ := Memory.exists_endsAt ha hb hzero
  have htarget : m.returnTarget = m.textAddress := by rw [returnTarget, toNat_wordOf, textAddress, Nat.add_comm]
  have hlength : (m.memory.bytes m.textAddress n).length = n := by
    rw [Memory.bytes, List.length_map, List.length_range]
  refine ⟨n, hn, ?_⟩
  rw [print_run, if_neg (by omega), if_neg (by omega), htarget, hn.string?, printed]
  dsimp only
  rw [hlength]

theorem print_error (hm : ¬ m.CanPrint) : (print : Exec γ Unit) m = .error m.printFault m := by
  have htarget : m.returnTarget = m.textAddress := by rw [returnTarget, toNat_wordOf, textAddress, Nat.add_comm]
  rw [print_run, printFault]
  split
  · rfl
  · split
    · rfl
    · next hsp =>
      have hnone : m.memory.string? m.returnTarget = none := by
        rw [htarget]
        exact Memory.string?_eq_none fun hzero => hm ⟨Nat.not_lt.1 hsp, hzero⟩
      rw [hnone, htarget]

theorem width_prints (hi : i.Prints) : i.width = if i.mnemonic = .CALL then 2 else 1 := by
  have hmn := hi.1
  simp only [List.mem_cons, List.not_mem_nil, or_false] at hmn
  rw [Instruction.width]
  obtain hmn | hmn := hmn <;> rw [hmn] <;> rfl

/-- The cells after `n` bytes have been printed. -/
theorem read_printed (m : Machine γ) (n c : Nat) : (m.printed n).memory.read c =
    if c ∈ [26, 27, 30, 31] then 0xFF
    else if c = 25 then highByte (BitVec.ofNat 16 n)
    else if c = 24 then lowByte (BitVec.ofNat 16 n)
    else m.memory.read c := by
  have hsize : ramSize = 2304 := rfl
  have hcells (w : Word) (hw : w = BitVec.ofNat 16 n) : (m.printed n).memory =
      (((((m.memory.write 24 (lowByte w)).write 25 (highByte w)).write 26 0xFF).write 27 0xFF).write 30 0xFF).write
        31 0xFF := hw ▸ rfl
  rw [hcells _ rfl]
  simp only [Memory.read_write, List.mem_cons, List.not_mem_nil, or_false]
  grind

theorem Printed.of_printed {n : Nat} (hrunning : m.condition = .running) (hn : n < 2 ^ 16) (hi : i.Prints) :
    m.Printed i n ((m.printed n).proceed i .next) := by
  have hconsole : (m.printed n).console = Console.emit m.console (m.memory.bytes m.textAddress n) := by
    rw [printed, console_afterPrint]
  have hframe : m.Frame (m.printed n) := ((Frame.refl m).withConsole _).afterPrint n
  have hread := read_printed m n
  generalize m.printed n = m' at hconsole hframe hread
  refine ⟨hframe.condition.trans hrunning, hconsole, ⟨?_, ?_⟩, fun r hr => ?_, fun c hc => ?_, ?_⟩
  · show (m'.memory.read 24).toNat = _
    rw [hread, if_neg (by decide), if_neg (by decide), if_pos rfl, toNat_lowByte, BitVec.toNat_ofNat,
      Nat.mod_eq_of_lt hn]
  · show (m'.memory.read 25).toNat = _
    rw [hread, if_neg (by decide), if_pos rfl, toNat_highByte, BitVec.toNat_ofNat, Nat.mod_eq_of_lt hn]
  · show m'.memory.read r = _
    rw [hread, if_pos hr]
  · show m'.memory.read c = _
    simp only [List.mem_cons, List.not_mem_nil, or_false, not_or] at hc
    rw [hread, if_neg (by simp [hc]), if_neg hc.2.1, if_neg hc.1]
  · show m'.pc + i.width = _
    rw [hframe.pc, width_prints hi]

theorem step_prints (hi : i.Prints) (habout : m.AboutTo i) :
    (m.CanPrint → ∃ n, m.memory.EndsAt m.textAddress n ∧ m.Printed i n m.step) ∧
      (¬ m.CanPrint → m.step.condition = .errored m.printFault ∧ m.Untouched m.step) := by
  have hexecute := execute_prints (γ := γ) hi
  refine ⟨fun hm => ?_, fun hm => ?_⟩
  · obtain ⟨n, hn, hprint⟩ := print_ok (m := m.ready i) hm
    have hrun : execute i (m.ready i) = .ok .next ((m.ready i).printed n) := by
      rw [hexecute]
      exact bind_run_ok hprint
    have hshort : n < 2 ^ 16 := by
      have hinside := hn.inside
      have hsize : ramSize = 2304 := rfl
      omega
    have hprinted := Printed.of_printed (m := m.ready i) habout.running hshort hi
    have hstep : m.step = ((m.ready i).printed n).proceed i .next := (step_eq_perform habout).trans (perform_ok hrun)
    rw [← hstep] at hprinted
    exact ⟨n, ⟨hn.inside, hn.zero, hn.before⟩, hprinted.running, hprinted.console, hprinted.count, hprinted.clobbered,
      hprinted.kept, hprinted.pc⟩
  · have hrun : execute i (m.ready i) = .error m.printFault (m.ready i) := by
      rw [hexecute]
      exact bind_run_error (print_error (m := m.ready i) hm)
    have hstep : m.step = (m.ready i).fail m.printFault := (step_eq_perform habout).trans (perform_error hrun)
    rw [hstep]
    exact ⟨rfl, (untouched_ready m i).fail _⟩

/-- Printing, for every machine. A call of the function that prints goes well if the address on the stack and a zero
behind the text are in memory. Then the bytes up to the first zero are printed, and nothing else changes but six
registers and the program counter. Otherwise the step fails with the first thing that is missing, and memory and console
stay. No other instruction changes the console. -/
theorem print_trap (m : Machine γ) :
    (∀ i : Instruction, i.Prints → m.AboutTo i → (m.step.condition = .running ↔ m.CanPrint) ∧
      (m.CanPrint → ∃ n, m.memory.EndsAt m.textAddress n ∧ m.Printed i n m.step) ∧
      (¬ m.CanPrint → m.step.condition = .errored m.printFault ∧ m.Untouched m.step)) ∧
    (∀ i : Instruction, ¬ i.Prints → (reached (execute i m)).console = m.console) ∧
    (m.step.console ≠ m.console → ∃ i, m.AboutTo i ∧ i.Prints) := by
  refine ⟨fun i hi habout => ?_, fun i hi => console_execute hi m, fun hchanged => ?_⟩
  · obtain ⟨hok, herror⟩ := step_prints hi habout
    refine ⟨⟨fun hrunning => ?_, fun hm => ?_⟩, hok, herror⟩
    · by_contra hm
      rw [(herror hm).1] at hrunning
      cases hrunning
    · obtain ⟨n, -, hprinted⟩ := hok hm
      exact hprinted.running
  · exact (steps_step m).console.resolve_left hchanged

def printCall : Instruction := ⟨.RCALL, [.func .printf], "1101111111111111", 1⟩

/-- A machine with the address of a text of two bytes on its stack, at a call that prints it. -/
def printMachine : Machine (Array Byte) :=
  let m := start ⟨#[.inst printCall], Vector.replicate ramSize 0, none, .empty, 1, 0⟩ none #[]
  (((({ m with pc := 0 }.setSp 0x200).write 0x201 0x01).write 0x100 0x41).write 0x101 0xFF)

theorem print_trap_two : printCall.Prints ∧ printMachine.AboutTo printCall ∧ printMachine.CanPrint ∧
    printMachine.step.condition = .running ∧ printMachine.step.console = #[0x41, 0xFF] ∧
    (printMachine.step.register 24).toNat = 2 ∧ printMachine.step.pc = 1 := by
  have hi : printCall.Prints := ⟨by decide, rfl⟩
  have hbreakpoint : printMachine.image.breakpoint ≠ some printMachine.pc := (Option.some_ne_none _).symm
  have habout : printMachine.AboutTo printCall := ⟨rfl, rfl, hbreakpoint, by decide, rfl⟩
  have haddress : printMachine.textAddress = 0x100 := by decide +kernel
  have hread : printMachine.memory.read 0x100 = 0x41 ∧ printMachine.memory.read 0x101 = 0xFF ∧
      printMachine.memory.read 0x102 = 0 := by decide +kernel
  have hm : printMachine.CanPrint := by
    refine ⟨by decide +kernel, 0x102, ?_, by decide, hread.2.2⟩
    rw [haddress]
    decide
  obtain ⟨hprints, -, -⟩ := print_trap printMachine
  obtain ⟨-, hok, -⟩ := hprints printCall hi habout
  obtain ⟨n, hn, hprinted⟩ := hok hm
  obtain ⟨hinside, hzero, hbefore⟩ := hn
  rw [haddress] at hzero hbefore
  obtain rfl : n = 2 := by
    have hle : n ≤ 2 := by
      by_contra hlt
      exact hbefore 2 (Nat.not_le.1 hlt) hread.2.2
    obtain rfl | rfl | rfl : n = 0 ∨ n = 1 ∨ n = 2 := by omega
    · exact absurd (hread.1.symm.trans hzero) (by decide)
    · exact absurd (hread.2.1.symm.trans hzero) (by decide)
    · rfl
  have hconsole : Console.emit printMachine.console (printMachine.memory.bytes 0x100 2) = #[0x41, 0xFF] := by
    decide +kernel
  refine ⟨hi, habout, hm, hprinted.running, ?_, hprinted.count.1, hprinted.pc⟩
  rw [hprinted.console, haddress, hconsole]

end Machine

end Avr

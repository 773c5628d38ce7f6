import Avr.CommandLine
import Avr.Proofs.CommandLine.Rearranged
import Avr.Proofs.Machine.Hosted
import Avr.Proofs.Text.Encoded

/-!
# What a suite accepts

* `printed` : the bytes that a program prints; `output_runProgram` : what a run writes begins with them;
* `run_start_text` : a console for text shows each of them as the character of that code;
* `SuiteUnit.Passes`, `judge_eq_true_iff` : which units pass;
* `characters_eq_iff` : the comparison of characters against that of bytes;
* `exit_runSuite_iff` : a suite succeeds if and only if all of its units pass;
* `suite_judges` : units are judged by their bytes as long as these are ASCII.
-/

namespace Avr.CommandLine

open Text

/-! ## Printed bytes -/

def printed (image : Image) (limit : StepLimit) : List Byte :=
  (Machine.start image limit (#[] : Array Byte)).run.console.toList

theorem output_runProgram (image : Image) (limit : StepLimit) : ∃ summary : String,
    (runProgram image limit false).output.toList = printed image limit ++ encodeUtf8 ("\n" ++ summary) := by
  refine ⟨summary (Snapshot.of (Machine.start image limit (#[] : Array Byte)).run), ?_⟩
  show ((Machine.start image limit (#[] : Array Byte)).run.console ++ (_ : List Byte)).toList = _
  rw [Array.toList_appendList]
  rfl

/-- A console for text shows each printed byte as the character of that code, and the run is the same. -/
theorem run_start_text (image : Image) (limit : StepLimit) : (Machine.start image limit "").run =
    { (Machine.start image limit (#[] : Array Byte)).run with
      console := String.ofList (latin1 (printed image limit)) } := by
  have htext := Machine.follow_start image limit [.run] ""
  have hbytes := Machine.follow_start image limit [.run] (#[] : Array Byte)
  rw [Transcript.showOn_string] at htext
  rw [Transcript.showOn_array] at hbytes
  change (Machine.start image limit "").run = _ at htext
  change (Machine.start image limit (#[] : Array Byte)).run = _ at hbytes
  rw [htext, printed, hbytes]
  simp

/-! ## Verdicts -/

/-- A unit passes if it assembles and finishes, and prints the characters of the file of its output, if it has one. -/
def SuiteUnit.Passes (u : SuiteUnit) (limit : StepLimit) : Prop :=
  ∃ image expected?, assembleSource u.path u.source none = .ok image ∧
    (Machine.start image limit (#[] : Array Byte)).run.condition = .finished ∧ u.expected = .ok expected? ∧
    ∀ contents ∈ expected?, contents.toList = latin1 (printed image limit)

theorem judge_eq_true_iff (u : SuiteUnit) (limit : StepLimit) : (judge limit u).1 = true ↔ u.Passes limit := by
  unfold judge SuiteUnit.Passes
  cases hassemble : assembleSource u.path u.source none with
  | error problem => simp [failed]
  | ok image =>
    cases hexpected : u.expected with
    | error problem => simp [failed]
    | ok expected? =>
      dsimp only
      rw [run_start_text]
      dsimp only
      cases hcondition : (Machine.start image limit (#[] : Array Byte)).run.condition with
      | running | errored => simp [hcondition, failed]
      | finished =>
        dsimp only
        cases expected? with
        | none => simp [hcondition]
        | some contents =>
          by_cases hsame : contents.toList = latin1 (printed image limit)
          · have hfilter : (some contents).filter (· != String.ofList (latin1 (printed image limit))) = none := by
              apply Option.filter_some_neg
              simp [← hsame]
            rw [hfilter]
            simp [hcondition, hsame]
          · have hfilter :
                (some contents).filter (· != String.ofList (latin1 (printed image limit))) = some contents := by
              apply Option.filter_some_pos
              rw [bne_iff_ne]
              rintro rfl
              exact hsame String.toList_ofList
            rw [hfilter]
            simp [hcondition, hsame, failed]

/-- A text that is printed bytes shown as characters has these bytes if and only if all are ASCII. -/
theorem bytes_eq_iff {contents : String} {bytes : List Byte} (h : contents.toList = latin1 bytes) :
    encodeUtf8 contents = bytes ↔ ∀ b ∈ bytes, b.toNat < 0x80 := by
  rw [← encodeUtf8_latin1_eq_iff, ← h, String.ofList_toList]

/-- As long as the printed bytes or those of the text are ASCII, the characters are the same where the bytes are. -/
theorem characters_eq_iff {contents : String} {bytes : List Byte}
    (h : (∀ b ∈ bytes, b.toNat < 0x80) ∨ ∀ b ∈ encodeUtf8 contents, b.toNat < 0x80) :
    contents.toList = latin1 bytes ↔ encodeUtf8 contents = bytes := by
  constructor
  · intro hsame
    apply (bytes_eq_iff hsame).2
    obtain hascii | hascii := h
    · exact hascii
    · apply ascii_of_encodeUtf8_latin1
      rw [← hsame, String.ofList_toList]
      exact hascii
  · rintro rfl
    have hascii : ∀ b ∈ encodeUtf8 contents, b.toNat < 0x80 := by
      obtain hascii | hascii := h <;> exact hascii
    have hsame := encodeUtf8_inj.1 (encodeUtf8_latin1_eq_iff.2 hascii)
    rw [← String.toList_ofList (l := latin1 (encodeUtf8 contents)), hsame]

/-! ## Suites -/

theorem reportUnits_eq_true_iff (name : String) (limit : StepLimit) (us : List SuiteUnit) :
    (reportUnits name limit us).1 = true ↔ ∀ u ∈ us, u.Passes limit := by
  have hcount : (us.map fun u => (u.name, judge limit u)).countP (·.2.1) = us.countP fun u => (judge limit u).1 :=
    List.countP_map
  show ((us.map fun u => (u.name, judge limit u)).countP (·.2.1) == us.length) = true ↔ _
  rw [hcount, beq_iff_eq, List.countP_eq_length]
  simp only [judge_eq_true_iff]

/-- A suite succeeds if and only if its units can be found and all of them pass. -/
theorem exit_runSuite_iff (files : Files) (name root : String) (only : Option String) (limit : StepLimit) :
    (runSuite files name root only limit).exit = 0 ↔
      ∃ us, units files (joinPath root name) only = .ok us ∧ ∀ u ∈ us, u.Passes limit := by
  unfold runSuite
  cases units files (joinPath root name) only with
  | error problem =>
    constructor
    · intro h
      cases h
    · rintro ⟨us, hus, -⟩
      cases hus
  | ok us =>
    simp only [Except.ok.injEq, exists_eq_left']
    rw [← reportUnits_eq_true_iff name]
    show (if (reportUnits name limit us).1 then 0 else 1) = 0 ↔ _
    split
    · next h => simp [h]
    · next h => simp [h]

/-- A unit whose program assembles and finishes is judged by the characters of the file of its output: it passes if they
are the printed bytes, each byte taken for the character of that code. Where the printed bytes or those of the file are
ASCII, that is to say that the bytes are the same; where they are not, a unit that passes has other bytes in its file
than a run of the program writes. A suite succeeds if and only if all of its units pass, and the order in which its
folder is listed plays no part in what it reports. -/
theorem suite_judges (limit : StepLimit) :
    (∀ (u : SuiteUnit) (image : Image) (contents : String), assembleSource u.path u.source none = .ok image →
      (Machine.start image limit (#[] : Array Byte)).run.condition = .finished → u.expected = .ok (some contents) →
      let bytes := printed image limit
      (∃ summary : String, (runProgram image limit false).output.toList = bytes ++ encodeUtf8 ("\n" ++ summary)) ∧
      ((judge limit u).1 = true ↔ contents.toList = latin1 bytes) ∧
      ((∀ b ∈ bytes, b.toNat < 0x80) ∨ (∀ b ∈ encodeUtf8 contents, b.toNat < 0x80) →
        ((judge limit u).1 = true ↔ encodeUtf8 contents = bytes)) ∧
      ((∃ b ∈ bytes, 0x80 ≤ b.toNat) → ¬ ((judge limit u).1 = true ∧ encodeUtf8 contents = bytes))) ∧
    (∀ (files : Files) (name root : String) (only : Option String), (runSuite files name root only limit).exit = 0 ↔
      ∃ us, units files (joinPath root name) only = .ok us ∧ ∀ u ∈ us, u.Passes limit) ∧
    ∀ files files' : Files, files.Rearranged files' → ∀ (name root : String) (only : Option String),
      runSuite files name root only limit = runSuite files' name root only limit := by
  refine ⟨?_, fun files name root only => exit_runSuite_iff files name root only limit, ?_⟩
  · intro u image contents hassemble hfinished hexpected bytes
    have hjudge : (judge limit u).1 = true ↔ contents.toList = latin1 bytes := by
      rw [judge_eq_true_iff]
      constructor
      · rintro ⟨image', expected?, hassemble', -, hexpected', hsame⟩
        obtain rfl : image = image' := Except.ok.inj (hassemble.symm.trans hassemble')
        obtain rfl : some contents = expected? := Except.ok.inj (hexpected.symm.trans hexpected')
        exact hsame contents rfl
      · intro hsame
        refine ⟨image, some contents, hassemble, hfinished, hexpected, fun other hother => ?_⟩
        obtain rfl := Option.some.inj hother
        exact hsame
    refine ⟨output_runProgram image limit, hjudge, ?_, ?_⟩
    · intro hascii
      rw [hjudge, characters_eq_iff hascii]
    · rintro ⟨b, hb, hhigh⟩ ⟨hpasses, hbytes⟩
      have hlow := (bytes_eq_iff (hjudge.1 hpasses)).1 hbytes b hb
      omega
  · intro files files' h name root only
    rw [runSuite, runSuite, h.units]

/-! ## A program that prints bytes that are not ASCII -/

/-- A program that lets the stack end in its data, which hold the address of the text behind it. -/
def accentSource : String :=
  ".section .data\n.byte 1, 2, 0xC3, 0xA9, 0\n.section .text\n.global main\n" ++
    "main: OUT 0x3E, R0\nCALL printf\nBREAK\n.end"

end Avr.CommandLine

namespace Avr

namespace Machine

open CommandLine

def accentOut : Instruction := ⟨.OUT, [.imm 0x3E, .reg 0], "1011111000001110", 5⟩

def accentCall : Instruction := ⟨.CALL, [.func .printf], "10010101111111111111111111111111", 6⟩

def accentBreak : Instruction := ⟨.BREAK, [], "1001010110011000", 7⟩

def accentSlots : List Slot := [.inst accentOut, .inst accentCall, .continuation, .inst accentBreak]

def accentBytes : Array Byte := Array.replicate ramStart 0 ++ #[1, 2, 0xC3, 0xA9, 0]

def accentImage (symbols : Symbols) : Image :=
  ⟨filled accentSlots.toArray, Vector.ofFn fun i => accentBytes[i.val]?.getD 0, none, symbols, accentSlots.length,
    accentBytes.size⟩

theorem assemble_accent : ∃ symbols, assemble accentSource none = .ok (accentImage symbols) := by
  apply assemble_of_assemblesTo
  decide +kernel

theorem accent_program (symbols : Symbols) {k : Nat} (hk : k < 4) :
    (accentImage symbols).program[k]? = accentSlots[k]? := by
  show (filled accentSlots.toArray)[k]? = _
  rw [filled, Array.getElem?_append_left (show k < accentSlots.toArray.size from hk), List.getElem?_toArray]

theorem accent_read (symbols : Symbols) (limit : StepLimit) {a : Nat} (ha : a < ramSize) :
    (start (accentImage symbols) limit (#[] : Array Byte)).memory.read a = if a = 0x5E then 8 else
      if a = 0x5D then 0xFF else if a = 0x5C then 0 else if a = 0x5B then 0 else accentBytes[a]?.getD 0 := by
  simp only [start, reset, accentImage, Memory.writePair, Memory.read_clearChanges, Memory.read_write,
    Memory.read_ofFn _ ha]
  simp [stackLowCell, entryLowCell, ramEnd, highByte, lowByte, eq_comm, ramSize]

/-- A running machine with that image is at a slot, with some instructions executed out of three. -/
structure AtAccent (symbols : Symbols) (k n : Nat) (m : Machine (Array Byte)) : Prop where
  image : m.image = accentImage symbols
  condition : m.condition = .running
  limit : m.limit = some 3
  pc : m.pc = k
  steps : m.stats.steps = n

namespace AtAccent

variable {symbols : Symbols} {k n : Nat} {m : Machine (Array Byte)} {i : Instruction}

theorem aboutTo (h : AtAccent symbols k n m) (hi : accentSlots[k]? = some (.inst i)) (hn : n < 3) : m.AboutTo i := by
  have hk : k < 4 := (List.getElem?_eq_some_iff.1 hi).1
  refine ⟨?_, h.condition, ?_, ?_, ?_⟩
  · rw [h.image, h.pc, accent_program symbols hk, hi]
  · rw [h.image]
    exact nofun
  · rw [h.pc]
    exact Nat.lt_trans hk (by decide)
  · rw [limitReached?, h.limit]
    apply Option.filter_some_neg
    simpa [h.steps] using hn

theorem step (h : AtAccent symbols k n m) (hi : accentSlots[k]? = some (.inst i)) (hn : n < 3)
    {m' : Machine (Array Byte)} (hrun : execute i (m.ready i) = .ok .next m') :
    m.step = m'.proceed i .next ∧ AtAccent symbols (k + i.width) (n + 1) (m'.proceed i .next) := by
  have hframe := execute_ok_frame hrun
  refine ⟨(step_eq_perform (h.aboutTo hi hn)).trans (perform_ok hrun), ?_, ?_, ?_, ?_, ?_⟩
  · exact hframe.image.trans h.image
  · exact hframe.condition.trans h.condition
  · exact hframe.limit.trans h.limit
  · show m'.pc + i.width = k + i.width
    rw [hframe.pc]
    exact congrArg (· + i.width) h.pc
  · show m'.stats.steps = n + 1
    rw [hframe.steps]
    exact congrArg (· + 1) h.steps

end AtAccent

theorem accent_print {m : Machine (Array Byte)} (hsp : m.sp.toNat = 0xFF) (hconsole : m.console = #[])
    (hread : ∀ a, 0x100 ≤ a → a < 0x105 → m.memory.read a = accentBytes[a]?.getD 0) :
    ∃ m', execute accentCall m = .ok .next m' ∧ m'.console = #[0xC3, 0xA9] := by
  have htarget : m.returnTarget = 0x102 := by
    rw [returnTarget, hsp, hread _ (by decide) (by decide), hread _ (by decide) (by decide)]
    simp [accentBytes, ramStart, wordOf]
  have htext : m.memory.string? 0x102 = some [0xC3, 0xA9] := by
    apply Memory.stringWithin_eq
    · intro k hk
      obtain rfl | rfl : k = 0 ∨ k = 1 := by
        simp at hk
        omega
      all_goals
        rw [hread _ (by decide) (by decide)]
        simp [accentBytes, ramStart]
    · rw [hread _ (by decide) (by decide)]
      simp [accentBytes, ramStart]
    · decide
  have hprint := print_run m
  rw [hsp, htarget, htext, if_neg (by decide), if_neg (by decide)] at hprint
  refine ⟨_, bind_run_ok hprint, ?_⟩
  rw [console_afterPrint]
  show Console.emit m.console [0xC3, 0xA9] = _
  rw [hconsole]
  rfl

theorem accent_run {symbols : Symbols} {m₀ : Machine (Array Byte)} (hat : AtAccent symbols 0 0 m₀)
    (hconsole : m₀.console = #[])
    (hread : ∀ {a : Nat}, a < ramSize → m₀.memory.read a = if a = 0x5E then 8 else
      if a = 0x5D then 0xFF else if a = 0x5C then 0 else if a = 0x5B then 0 else accentBytes[a]?.getD 0) :
    m₀.run.condition = .finished ∧ m₀.run.console = #[0xC3, 0xA9] := by
  let m₁ := (m₀.ready accentOut).write 0x5E ((m₀.ready accentOut).register 0)
  have hout : execute accentOut (m₀.ready accentOut) = .ok .next m₁ := rfl
  obtain ⟨hstep₀, hat₁⟩ := hat.step rfl (by decide) hout
  let m₂ := (m₁.proceed accentOut .next).ready accentCall
  have hread₂ {a : Nat} (ha : a < ramSize) : m₂.memory.read a =
      if a = 0x5E then 0 else if a = 0x5D then 0xFF else if a = 0x5C then 0 else if a = 0x5B then 0
        else accentBytes[a]?.getD 0 := by
    show ((m₀.memory.clearChanges.write 0x5E (m₀.memory.clearChanges.read 0)).clearChanges).read a = _
    rw [Memory.read_clearChanges, Memory.read_write, Memory.read_clearChanges, Memory.read_clearChanges, hread ha,
      hread (by decide)]
    by_cases h : a = 0x5E
    · simp [h, ramSize, accentBytes, ramStart]
    · simp [h, Ne.symm h]
  have hsp : m₂.sp.toNat = 0xFF := by
    rw [sp, Memory.readPair, hread₂ (by decide), hread₂ (by decide)]
    rfl
  have hdata (a : Nat) (hlow : 0x100 ≤ a) (hhigh : a < 0x105) : m₂.memory.read a = accentBytes[a]?.getD 0 := by
    rw [hread₂ (Nat.lt_trans hhigh (by decide)), if_neg (by omega), if_neg (by omega), if_neg (by omega),
      if_neg (by omega)]
  obtain ⟨m₃, hcall, hprinted⟩ := accent_print hsp hconsole hdata
  obtain ⟨hstep₁, hat₃⟩ := hat₁.step rfl (by decide) hcall
  have hbreak : execute accentBreak ((m₃.proceed accentCall .next).ready accentBreak) = .ok .stop _ := rfl
  have hstep₃ := (step_eq_perform (hat₃.aboutTo rfl (by decide))).trans (perform_ok hbreak)
  have hfuel : m₀.fuel = 3 + 1 := by
    rw [fuel, hat.limit, hat.steps]
  have hrunning₁ : (m₁.proceed accentOut .next).isRunning = true := beq_iff_eq.2 hat₁.condition
  have hrunning₃ : (m₃.proceed accentCall .next).isRunning = true := beq_iff_eq.2 hat₃.condition
  have hrun : m₀.run = ((m₃.proceed accentCall .next).ready accentBreak).finish := by
    rw [run, hfuel]
    simp only [runFor, hstep₀, hstep₁, hstep₃, hrunning₁, hrunning₃]
    rfl
  rw [hrun]
  exact ⟨rfl, hprinted⟩

theorem accent_start (symbols : Symbols) : let m := (start (accentImage symbols) (some 3) (#[] : Array Byte)).run
    m.condition = .finished ∧ m.console = #[0xC3, 0xA9] := by
  have hpc : (start (accentImage symbols) (some 3) (#[] : Array Byte)).pc = 0 := by
    simp [pc_start, accentImage, Memory.readPair, Memory.read_ofFn, entryLowCell, ramSize, accentBytes, ramStart,
      wordOf]
  exact accent_run ⟨rfl, rfl, rfl, hpc, rfl⟩ rfl (accent_read symbols (some 3))

end Machine

namespace CommandLine

open Text

/-- A unit with that program, and a file with the very bytes that it prints. -/
def accented : SuiteUnit := ⟨"a", "t/a.s", accentSource, .ok (some "\u00e9")⟩

theorem accented_run : ∃ image, assembleSource accented.path accented.source none = .ok image ∧
    (Machine.start image (some 3) (#[] : Array Byte)).run.condition = .finished ∧
    printed image (some 3) = [0xC3, 0xA9] := by
  obtain ⟨symbols, hassemble⟩ := Machine.assemble_accent
  obtain ⟨hfinished, hconsole⟩ := Machine.accent_start symbols
  refine ⟨Machine.accentImage symbols, ?_, hfinished, ?_⟩
  · show assembleSource _ accentSource none = _
    rw [assembleSource, hassemble]
  · rw [printed, hconsole]

theorem encodeUtf8_accent : encodeUtf8 "\u00e9" = [0xC3, 0xA9] := by
  decide +kernel

theorem judge_accented : ∃ image, assembleSource accented.path accented.source none = .ok image ∧
    (Machine.start image (some 3) (#[] : Array Byte)).run.condition = .finished ∧
    accented.expected = .ok (some "\u00e9") ∧ encodeUtf8 "\u00e9" = printed image (some 3) ∧
    (judge (some 3) accented).1 = false := by
  obtain ⟨image, hassemble, hfinished, hprinted⟩ := accented_run
  refine ⟨image, hassemble, hfinished, rfl, by rw [hprinted, encodeUtf8_accent], ?_⟩
  rw [← Bool.not_eq_true, judge_eq_true_iff]
  rintro ⟨image', expected?, hassemble', -, hexpected, hsame⟩
  obtain rfl : image = image' := Except.ok.inj (hassemble.symm.trans hassemble')
  obtain rfl : some "\u00e9" = expected? := Except.ok.inj hexpected
  have heq := hsame "\u00e9" rfl
  rw [hprinted] at heq
  exact absurd heq (by decide +kernel)

theorem suite_judges_accented : (judge (some 3) accented).1 = false ∧
    (runSuite (.ofPaths [("t/a.s", accentSource), ("t/a.out", "\u00e9")]) "t" "" none (some 3)) =
      runSuite (.ofPaths [("t/a.out", "\u00e9"), ("t/a.s", accentSource)]) "t" "" none (some 3) := by
  obtain ⟨hunits, -, horder⟩ := suite_judges (some 3)
  obtain ⟨image, hassemble, hfinished, hprinted⟩ := accented_run
  obtain ⟨-, -, -, hother⟩ := hunits accented image "\u00e9" hassemble hfinished rfl
  rw [hprinted] at hother
  refine ⟨?_, horder _ _ ?_ _ _ _⟩
  · rw [← Bool.not_eq_true]
    exact fun hpasses => hother ⟨0xC3, by simp, by decide⟩ ⟨hpasses, encodeUtf8_accent⟩
  · apply Files.rearranged_ofPaths (.swap _ _ [])
    decide +kernel

end CommandLine

end Avr

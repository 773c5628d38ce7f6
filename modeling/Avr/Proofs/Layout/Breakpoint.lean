import Mathlib.Data.List.ReduceOption
import Mathlib.Order.Bounds.Basic
import Avr.Proofs.Layout.WellFormed

/-!
# The slot to stop at

* `firstFrom` : the first slot with a line on or behind a wanted one, among the lines of slots;
* `ProgramState.stopAt`, `foldlM_add_stopAt` : the text section is laid out alike for all wanted lines, and the slot to
  stop at follows from the lines of its slots;
* `foldlM_add_lines` : these are lines of the source in order;
* `assemble_stopAt` : the image for a wanted line is the one for none with the slot to stop at put in;
* `assemble_breakpoint` : that slot is the first one with an instruction on or behind the wanted line.
-/

namespace Avr

/-! ## Lines of slots -/

/-- The first slot with a line on or behind line `n`. The slots are given by their lines, second words by none. -/
def firstFrom (n : Nat) (ls : List (Option Nat)) : Option Nat := ls.findIdx? fun l => l.any (n ≤ ·)

def SlotsFrom (n : Nat) (ls : List (Option Nat)) : Set Nat := {j | ∃ m, ls[j]? = some (some m) ∧ n ≤ m}

theorem mem_slotsFrom {n j : Nat} {ls : List (Option Nat)} :
    j ∈ SlotsFrom n ls ↔ ∃ h : j < ls.length, ls[j].any (n ≤ ·) = true := by
  simp only [Option.any_eq_true, decide_eq_true_eq]
  constructor
  · rintro ⟨m, hm, hle⟩
    obtain ⟨hj, hget⟩ := List.getElem?_eq_some_iff.1 hm
    exact ⟨hj, m, hget, hle⟩
  · rintro ⟨hj, m, hget, hle⟩
    exact ⟨m, List.getElem?_eq_some_iff.2 ⟨hj, hget⟩, hle⟩

theorem firstFrom_eq_some_iff {n k : Nat} {ls : List (Option Nat)} :
    firstFrom n ls = some k ↔ IsLeast (SlotsFrom n ls) k := by
  rw [firstFrom, List.findIdx?_eq_some_iff_getElem]
  constructor
  · rintro ⟨hk, hany, hbefore⟩
    refine ⟨mem_slotsFrom.2 ⟨hk, hany⟩, fun j hj => ?_⟩
    obtain ⟨hj, hany'⟩ := mem_slotsFrom.1 hj
    by_contra hlt
    exact hbefore j (Nat.not_le.1 hlt) hany'
  · rintro ⟨hmem, hleast⟩
    obtain ⟨hk, hany⟩ := mem_slotsFrom.1 hmem
    exact ⟨hk, hany, fun j hj hany' => Nat.not_le.2 hj (hleast (mem_slotsFrom.2 ⟨_, hany'⟩))⟩

theorem firstFrom_eq_none_iff {n : Nat} {ls : List (Option Nat)} : firstFrom n ls = none ↔ SlotsFrom n ls = ∅ := by
  rw [firstFrom, List.findIdx?_eq_none_iff, Set.eq_empty_iff_forall_notMem]
  constructor
  · intro hall j hj
    obtain ⟨hlt, hany⟩ := mem_slotsFrom.1 hj
    rw [hall _ (List.getElem_mem hlt)] at hany
    cases hany
  · intro hempty l hl
    obtain ⟨j, hj, rfl⟩ := List.getElem_of_mem hl
    rw [Bool.eq_false_iff]
    exact fun hany => hempty j (mem_slotsFrom.2 ⟨hj, hany⟩)

/-- For a later line there are no slots but those for an earlier one, so that the first one is not in front. -/
theorem firstFrom_mono {n n' k : Nat} (hn : n ≤ n') {ls : List (Option Nat)} (h : firstFrom n' ls = some k) :
    ∃ j, firstFrom n ls = some j ∧ j ≤ k := by
  obtain ⟨⟨m, hm, hle⟩, -⟩ := firstFrom_eq_some_iff.1 h
  have hmem : k ∈ SlotsFrom n ls := ⟨m, hm, Nat.le_trans hn hle⟩
  cases hfirst : firstFrom n ls with
  | none =>
    rw [firstFrom_eq_none_iff] at hfirst
    rw [hfirst] at hmem
    exact hmem.elim
  | some j => exact ⟨j, rfl, (firstFrom_eq_some_iff.1 hfirst).2 hmem⟩

theorem firstFrom_append (n : Nat) (ls ls' : List (Option Nat)) :
    firstFrom n (ls ++ ls') = (firstFrom n ls).or ((firstFrom n ls').map (· + ls.length)) := List.findIdx?_append

/-! ## The text section -/

def linesOf (slots : List (Option Statement)) : List (Option Nat) := slots.map (Option.map Statement.line)

theorem linesOf_append (slots slots' : List (Option Statement)) :
    linesOf (slots ++ slots') = linesOf slots ++ linesOf slots' := List.map_append

theorem linesOf_block (st : Statement) :
    linesOf st.block = [some st.line] ∨ linesOf st.block = [some st.line, none] := by
  unfold Statement.block
  split
  · exact .inr rfl
  · exact .inl rfl

theorem firstFrom_block (n : Nat) (st : Statement) :
    firstFrom n (linesOf st.block) = if n ≤ st.line then some 0 else none := by
  rcases linesOf_block st with hlines | hlines
  · rw [hlines]
    by_cases hle : n ≤ st.line <;> simp [firstFrom, List.findIdx?_cons, hle]
  · rw [hlines]
    by_cases hle : n ≤ st.line <;> simp [firstFrom, List.findIdx?_cons, hle]

theorem reduceOption_block (st : Statement) : (linesOf st.block).reduceOption = [st.line] := by
  rcases linesOf_block st with hlines | hlines <;> rw [hlines] <;> rfl

theorem reduceOption_blocks (sts : List Statement) :
    (linesOf (sts.flatMap Statement.block)).reduceOption = sts.map Statement.line := by
  induction sts with
  | nil => rfl
  | cons st sts ih =>
    rw [List.flatMap_cons, linesOf_append, List.reduceOption_append, reduceOption_block, ih]
    rfl

namespace ProgramState

def lines (s : ProgramState) : List (Option Nat) := linesOf s.slots.toList

/-- The state with the slot to stop at put in that follows from the lines of its slots. -/
def stopAt (wanted : Option Nat) (s : ProgramState) : ProgramState :=
  { s with breakpoint := wanted.bind fun n => firstFrom n s.lines }

/-- An instruction is the one to stop at if there is none before it and it is on or behind the wanted line. -/
theorem breakpointAt_stopAt (wanted : Option Nat) (s : ProgramState) (st : Statement) :
    (s.stopAt wanted).breakpointAt wanted st.line =
      wanted.bind fun n => firstFrom n (linesOf (push s.slots st).toList) := by
  cases wanted with
  | none => rfl
  | some n =>
    have hlength : (linesOf s.slots.toList).length = s.slots.size := by
      rw [linesOf, List.length_map, Array.length_toList]
    rw [Option.bind_some, toList_push, linesOf_append, firstFrom_append, firstFrom_block, hlength]
    unfold breakpointAt stopAt lines
    dsimp only [Option.bind_some]
    cases firstFrom n (linesOf s.slots.toList) with
    | some j => rfl
    | none =>
      rw [Option.none_or]
      show (if n ≤ st.line then some s.slots.size else none) = _
      by_cases hle : n ≤ st.line
      · rw [if_pos hle, if_pos hle, Option.map_some, Nat.zero_add]
      · rw [if_neg hle, if_neg hle, Option.map_none]

theorem addStatement_stopAt (wanted : Option Nat) (s : ProgramState) (st : Statement) :
    (s.stopAt wanted).addStatement wanted st = (s.addStatement none st).map (stopAt wanted) := by
  unfold addStatement
  rw [breakpointAt_stopAt]
  dsimp only [stopAt]
  split <;> rfl

theorem addTokens_stopAt (wanted : Option Nat) (s : ProgramState) (line : Nat) (tokens : List Token) :
    (s.stopAt wanted).addTokens wanted line tokens = (s.addTokens none line tokens).map (stopAt wanted) := by
  unfold addTokens
  split
  · rfl
  · dsimp only
    split
    · split
      · rfl
      · by_cases hempty : s.slots.isEmpty = true
        · rw [if_pos hempty, if_pos (show (s.stopAt wanted).slots.isEmpty = true from hempty)]
          rfl
        · rw [if_neg hempty, if_neg (show ¬ (s.stopAt wanted).slots.isEmpty = true from hempty)]
          rfl
    · split
      · exact addStatement_stopAt wanted s _
      · rfl
    · rfl

theorem add_stopAt (wanted : Option Nat) (s : ProgramState) (line : Line) :
    add wanted (s.stopAt wanted) line = (add none s line).map (stopAt wanted) := by
  unfold add
  dsimp only [stopAt]
  cases bindLabel line.tokens s.symbols s.slots.size with
  | error e => rfl
  | ok p => exact addTokens_stopAt wanted { s with symbols := p.2 } line.number p.1

/-- The text section is laid out alike for all wanted lines. -/
theorem foldlM_add_stopAt (wanted : Option Nat) (ls : List Line) (s : ProgramState) :
    ls.foldlM (add wanted) (s.stopAt wanted) = (ls.foldlM (add none) s).map (stopAt wanted) := by
  induction ls generalizing s with
  | nil => rfl
  | cons line ls ih =>
    rw [List.foldlM_cons, List.foldlM_cons, add_stopAt]
    cases add none s line with
    | error e => rfl
    | ok t => exact ih t

/-! ### Lines in order -/

theorem add_lines {wanted : Option Nat} {s t : ProgramState} {line : Line} (h : add wanted s line = .ok t) :
    ∃ ls, ls.Sublist [line.number] ∧ t.lines.reduceOption = s.lines.reduceOption ++ ls := by
  obtain ⟨-, sts, hadds, hlength, hsts⟩ := add_ok h
  refine ⟨sts.map Statement.line, ?_, ?_⟩
  · cases sts with
    | nil => exact List.nil_sublist _
    | cons st sts =>
      obtain rfl : sts = [] := List.length_eq_zero_iff.1 (Nat.le_zero.1 (Nat.le_of_succ_le_succ hlength))
      rw [List.map_singleton, (hsts st List.mem_cons_self).1]
  · rw [lines, lines, hadds.slots, linesOf_append, List.reduceOption_append, reduceOption_blocks]

/-- The lines of slots are lines of the source, in order and each one once. -/
theorem foldlM_add_lines {wanted : Option Nat} {sources : List Line} {s t : ProgramState}
    (h : sources.foldlM (add wanted) s = .ok t) :
    ∃ ls, ls.Sublist (sources.map Line.number) ∧ t.lines.reduceOption = s.lines.reduceOption ++ ls := by
  induction sources generalizing s with
  | nil =>
    cases h
    exact ⟨[], .refl _, (List.append_nil _).symm⟩
  | cons line sources ih =>
    obtain ⟨u, hu, h⟩ := foldlM_cons_eq_ok.1 h
    obtain ⟨ls, hls, hu⟩ := add_lines hu
    obtain ⟨ls', hls', ht⟩ := ih h
    refine ⟨ls ++ ls', hls.append hls', ?_⟩
    rw [ht, hu, List.append_assoc]

end ProgramState

/-! ## Layouts -/

def Layout.stopAt (wanted : Option Nat) (l : Layout) : Layout :=
  { l with breakpoint := wanted.bind fun n => firstFrom n (linesOf l.slots.toList) }

theorem layoutProgram_stopAt (sections : Sections) (lines : List Line) (symbols : Symbols) (wanted : Option Nat) :
    layoutProgram sections lines symbols wanted =
      (layoutProgram sections lines symbols none).map (ProgramState.stopAt wanted) := by
  unfold layoutProgram
  dsimp only
  split
  · rfl
  · next entry _ =>
    have hstart : ({ symbols := symbols, globals := [entry] } : ProgramState) =
        ProgramState.stopAt wanted { symbols := symbols, globals := [entry] } := by
      cases wanted <;> rfl
    have hfold := ProgramState.foldlM_add_stopAt wanted (sections.textLines lines)
      { symbols := symbols, globals := [entry] }
    rw [← hstart] at hfold
    rw [hfold]
    cases (sections.textLines lines).foldlM (ProgramState.add none) { symbols := symbols, globals := [entry] } with
    | error e => rfl
    | ok s =>
      dsimp only [Except.map, bind, Except.bind, ProgramState.stopAt]
      split <;> rfl

theorem layout_stopAt (lines : List Line) (wanted : Option Nat) :
    layout lines wanted = (layout lines none).map (Layout.stopAt wanted) := by
  unfold layout
  cases checkSections lines with
  | error e => rfl
  | ok sections =>
    cases checkMnemonics lines with
    | error e => rfl
    | ok _ =>
      dsimp only [bind, Except.bind]
      rw [layoutProgram_stopAt]
      cases layoutProgram sections lines Symbols.predefined none with
      | error e => rfl
      | ok program =>
        dsimp only [Except.map, ProgramState.stopAt]
        cases layoutData (sections.dataLines lines) program.symbols <;> rfl

/-! ## Images -/

def Slot.line? (slot : Slot) : Option Nat := slot.inst?.map Instruction.line

namespace Image

def lines (image : Image) : List (Option Nat) := (image.program.toList.take image.codeLength).map Slot.line?

def stopAt (wanted : Option Nat) (image : Image) : Image :=
  { image with breakpoint := wanted.bind fun n => firstFrom n image.lines }

/-- Slot `k` holds an instruction of the code that is written on line `n` or behind it. -/
def HoldsFrom (image : Image) (n k : Nat) : Prop :=
  k < image.codeLength ∧ ∃ i, image.program[k]? = some (.inst i) ∧ n ≤ i.line

theorem getElem?_lines {image : Image} {k m : Nat} : image.lines[k]? = some (some m) ↔
    k < image.codeLength ∧ ∃ i, image.program[k]? = some (.inst i) ∧ i.line = m := by
  have hline (slot : Slot) : slot.line? = some m ↔ ∃ i, slot = .inst i ∧ i.line = m := by
    cases slot with
    | inst i => simp [Slot.line?, Slot.inst?]
    | continuation => simp [Slot.line?, Slot.inst?]
  rw [lines, List.getElem?_map, List.getElem?_take, Option.map_eq_some_iff]
  simp only [hline]
  split
  · next hk =>
    rw [Array.getElem?_toList]
    constructor
    · rintro ⟨slot, hslot, i, rfl, hi⟩
      exact ⟨hk, i, hslot, hi⟩
    · rintro ⟨-, i, hslot, hi⟩
      exact ⟨_, hslot, i, rfl, hi⟩
  · next hk =>
    constructor
    · rintro ⟨slot, hslot, -⟩
      cases hslot
    · rintro ⟨hlt, -⟩
      exact absurd hlt hk

theorem slotsFrom_lines (image : Image) (n : Nat) : SlotsFrom n image.lines = {k | image.HoldsFrom n k} := by
  ext k
  constructor
  · rintro ⟨m, hm, hle⟩
    obtain ⟨hk, i, hi, rfl⟩ := getElem?_lines.1 hm
    exact ⟨hk, i, hi, hle⟩
  · rintro ⟨hk, i, hi, hle⟩
    exact ⟨i.line, getElem?_lines.2 ⟨hk, i, hi, rfl⟩, hle⟩

end Image

theorem Layout.resolve_withBreakpoint (l : Layout) (b : Option Nat) :
    ({ l with breakpoint := b } : Layout).resolve = l.resolve.map fun r => { r with breakpoint := b } := by
  unfold Layout.resolve
  dsimp only [bind, Except.bind]
  split <;> rfl

theorem Layout.image_withBreakpoint (l : Layout) (b : Option Nat) :
    ({ l with breakpoint := b } : Layout).image = l.image.map fun image => { image with breakpoint := b } := by
  unfold Layout.image
  cases l.slots.toList.mapM slotOf <;> rfl

theorem lines_of_image {l r : Layout} {image : Image} (hr : l.resolve = .ok r) (h : r.image = .ok image) :
    image.lines = linesOf l.slots.toList := by
  obtain ⟨slots, hslots, hprogram, hlength, -⟩ := image_slots hr h
  have htake : image.program.toList.take image.codeLength = slots := by
    rw [hprogram, filled, hlength, Array.toList_append, List.take_left']
    rfl
  have hlines : ∀ (p : Option Statement × Nat) (slot : Slot), Resolves l.symbols p slot →
      p.1.map Statement.line = slot.line? := by
    rintro ⟨o, j⟩ slot hres
    cases slot with
    | inst i =>
      obtain ⟨st, rfl, hline⟩ := line_of_resolves hres
      exact congrArg some hline.symm
    | continuation =>
      cases o with
      | none => rfl
      | some st =>
        obtain ⟨_, _, -, -, heq⟩ := hres
        cases heq
  rw [Image.lines, htake, linesOf, ← List.zipIdx_map_fst 0 l.slots.toList, List.map_map]
  exact ((List.forall₂_eq_eq_eq ▸ List.forall₂_map_left_iff.2
    (List.forall₂_map_right_iff.2 (hslots.imp hlines))) : _ = _).symm

/-- The image for a wanted line is the one for none with the slot to stop at put in. -/
theorem assemble_stopAt (source : String) (wanted : Option Nat) :
    assemble source wanted = (assemble source none).map (Image.stopAt wanted) := by
  unfold assemble
  cases tokenize source with
  | error e => rfl
  | ok lines =>
    dsimp only [bind, Except.bind]
    rw [layout_stopAt]
    cases layout lines none with
    | error e => rfl
    | ok l =>
      dsimp only [Except.map, Layout.stopAt]
      rw [Layout.resolve_withBreakpoint]
      cases hr : l.resolve with
      | error e => rfl
      | ok r =>
        dsimp only [Except.map]
        rw [Layout.image_withBreakpoint]
        cases himage : r.image with
        | error e => rfl
        | ok image =>
          dsimp only [Except.map, Image.stopAt]
          rw [lines_of_image hr himage]

/-- The instructions of an image are written on lines in order. -/
theorem pairwise_lines {source : String} {wanted : Option Nat} {image : Image}
    (h : assemble source wanted = .ok image) : image.lines.reduceOption.Pairwise (· < ·) := by
  obtain ⟨lines, l, r, hlines, hl, hr, himage⟩ := assemble_eq_ok_iff.1 h
  obtain ⟨sections, program, data, -, -, hprogram, -, rfl⟩ := layout_ok hl
  obtain ⟨entry, hfold, -⟩ := layoutProgram_ok hprogram
  obtain ⟨ls, hsub, hslots⟩ := ProgramState.foldlM_add_lines hfold
  have hnumbers : (lines.map Line.number).Pairwise (· < ·) := List.pairwise_map.2 (tokenize_pairwise hlines)
  have hlines : image.lines.reduceOption = ls := by
    rw [lines_of_image hr himage]
    exact hslots
  rw [hlines]
  exact hnumbers.sublist (hsub.trans ((textLines_sublist sections lines).map Line.number))

theorem line_lt_line {source : String} {wanted : Option Nat} {image : Image} (h : assemble source wanted = .ok image)
    {j k : Nat} {p q : Instruction} (hjk : j < k) (hk : k < image.codeLength)
    (hp : image.program[j]? = some (.inst p)) (hq : image.program[k]? = some (.inst q)) : p.line < q.line := by
  have hordered := pairwise_lines h
  rw [List.reduceOption, List.pairwise_filterMap, List.pairwise_iff_getElem] at hordered
  have hp' := Image.getElem?_lines.2 ⟨Nat.lt_trans hjk hk, p, hp, rfl⟩
  have hq' := Image.getElem?_lines.2 ⟨hk, q, hq, rfl⟩
  obtain ⟨hj, hp'⟩ := List.getElem?_eq_some_iff.1 hp'
  obtain ⟨hk, hq'⟩ := List.getElem?_eq_some_iff.1 hq'
  exact hordered j k hj hk hjk p.line hp' q.line hq'

/-- The slot to stop at is the first one with an instruction on or behind the wanted line, if there is one. The
instructions of an image are written on lines in order, and nothing else in it depends on the wanted line: for a later
line the slot to stop at is not in front. -/
theorem assemble_breakpoint {source : String} {n : Nat} {image : Image} (h : assemble source (some n) = .ok image) :
    (∀ j k p q, j < k → k < image.codeLength → image.program[j]? = some (.inst p) →
      image.program[k]? = some (.inst q) → p.line < q.line) ∧
    (∀ k, image.breakpoint = some k ↔ IsLeast {k | image.HoldsFrom n k} k) ∧
    (image.breakpoint = none ↔ ∀ k, ¬ image.HoldsFrom n k) ∧
    (∀ k, image.breakpoint = some k → image.program[k]? ≠ some .continuation) ∧
    (∀ wanted, ∃ stop, assemble source wanted = .ok { image with breakpoint := stop }) ∧
    ∀ n' later, n ≤ n' → assemble source (some n') = .ok later →
      ∀ k, later.breakpoint = some k → ∃ j, image.breakpoint = some j ∧ j ≤ k := by
  obtain ⟨base, hbase, rfl⟩ := map_eq_ok.1 ((assemble_stopAt source (some n)).symm.trans h)
  have hstop (k : Nat) : firstFrom n base.lines = some k ↔ IsLeast {k | base.HoldsFrom n k} k := by
    rw [firstFrom_eq_some_iff, base.slotsFrom_lines]
  refine ⟨fun j k p q => line_lt_line h, hstop, ?_, fun k hk => ?_,
    fun wanted => ⟨wanted.bind fun m => firstFrom m base.lines, ?_⟩, ?_⟩
  · show firstFrom n base.lines = none ↔ _
    rw [firstFrom_eq_none_iff, base.slotsFrom_lines, Set.eq_empty_iff_forall_notMem]
    rfl
  · obtain ⟨⟨-, i, hi, -⟩, -⟩ := (hstop k).1 hk
    show base.program[k]? ≠ some .continuation
    rw [hi]
    exact nofun
  · rw [assemble_stopAt, hbase]
    rfl
  · intro n' later hn hlater k hk
    rw [assemble_stopAt, hbase] at hlater
    cases hlater
    exact firstFrom_mono hn hk

/-- Between the instructions on lines 3 and 6 are a comment and a blank line. The first one takes two slots. -/
def commentBetween : String := ".section .text\n.global main\nmain: JMP main\n; comment\n\nNOP\nRET\n.end"

theorem assemble_breakpoint_comment : ∃ image, assemble commentBetween (some 4) = .ok image ∧
    IsLeast {k | image.HoldsFrom 4 k} 2 ∧ image.program[2]? ≠ some .continuation ∧
    ∃ stop, assemble commentBetween none = .ok { image with breakpoint := stop } := by
  have hstop : (match assemble commentBetween (some 4) with
      | .ok image => image.breakpoint == some 2
      | .error _ => false) = true := by decide +kernel
  split at hstop
  · next image himage =>
    obtain ⟨-, hleast, -, hinst, hsame, -⟩ := assemble_breakpoint himage
    have hstop : image.breakpoint = some 2 := eq_of_beq hstop
    exact ⟨image, himage, (hleast 2).1 hstop, hinst 2 hstop, hsame none⟩
  · cases hstop

end Avr

import Avr.Proofs.Layout.Structure
import Avr.Proofs.Token.Located

/-!
# Every access in range

* `Checked` : results, or an access out of range; `Checked.index`, `Checked.slice`, `Checked.put` : the accesses;
* `Checked.Gives` : a computation stays in range, with one rule for each way to combine computations;
* `checkSections?`, `layoutProgram?`, `layout?` : the layout with every access checked;
* `layout_in_range` : the sections of every source that is tokenized, and that no access is out of range.
-/

namespace Avr

/-! ## Checked accesses -/

/-- Results of computations with accesses to lists; none of an access out of range. -/
abbrev Checked := ExceptT Diagnostic Option

namespace Checked

def index {α : Type} (l : List α) (i : Nat) : Checked α := ExceptT.lift l[i]?

/-- The elements from one index up to another one, which must be in this order and in range. -/
def slice {α : Type} (l : List α) (start stop : Nat) : Checked (List α) :=
  if start ≤ stop ∧ stop ≤ l.length then return (l.take stop).drop start else ExceptT.lift none

def put (bytes : Array Byte) (i : Nat) (b : Byte) : Checked (Array Byte) :=
  if i < bytes.size then return bytes.setIfInBounds i b else ExceptT.lift none

/-- A computation stays in range, and comes to this. -/
def Gives {α : Type} (x : Checked α) (e : Except Diagnostic α) : Prop := x.run = some e

namespace Gives

variable {α β : Type}

theorem ok (a : α) : Gives (pure a) (.ok a) := rfl

theorem error (d : Diagnostic) : Gives (throw d) (.error d : Except Diagnostic α) := rfl

theorem lift (e : Except Diagnostic α) : Gives (liftM e) e := rfl

theorem bind {x : Checked α} {e : Except Diagnostic α} {f : α → Checked β} {g : α → Except Diagnostic β}
    (hx : Gives x e) (hf : ∀ a, e = .ok a → Gives (f a) (g a)) : Gives (x >>= f) (e >>= g) := by
  unfold Gives at hx
  rw [Gives, ExceptT.run_bind, hx]
  cases e with
  | error d => rfl
  | ok a => exact hf a rfl

theorem access {x : Checked α} {a : α} {f : α → Checked β} {e : Except Diagnostic β} (hx : Gives x (.ok a))
    (hf : Gives (f a) e) : Gives (x >>= f) e := by
  unfold Gives at hx
  rw [Gives, ExceptT.run_bind, hx]
  exact hf

theorem foldlM {f : β → α → Checked β} {g : β → α → Except Diagnostic β} {l : List α}
    (h : ∀ b, ∀ a ∈ l, Gives (f b a) (g b a)) (b : β) : Gives (l.foldlM f b) (l.foldlM g b) := by
  induction l generalizing b with
  | nil => exact ok b
  | cons a l ih =>
    rw [List.foldlM_cons, List.foldlM_cons]
    exact (h b a List.mem_cons_self).bind fun b' _ => ih (fun b a ha => h b a (List.mem_cons_of_mem _ ha)) b'

theorem index {l : List α} {i : Nat} {a : α} (h : l[i]? = some a) : Gives (index l i) (.ok a) := by
  rw [Gives, Checked.index, h]
  rfl

theorem slice {l : List α} {start stop : Nat} (hle : start ≤ stop) (hstop : stop ≤ l.length) :
    Gives (slice l start stop) (.ok ((l.take stop).drop start)) := by
  rw [Gives, Checked.slice, if_pos ⟨hle, hstop⟩]
  rfl

theorem put {bytes : Array Byte} {i : Nat} (h : i < bytes.size) (b : Byte) :
    Gives (put bytes i b) (.ok (bytes.setIfInBounds i b)) := by
  rw [Gives, Checked.put, if_pos h]
  rfl

end Gives

end Checked

open Checked (index slice put Gives)

/-! ## The layout with every access checked -/

def Line.isLoneDir? (l : Line) (d : Directive) : Checked Bool :=
  if l.tokens.length = 1 then return (← index l.tokens 0).isDir d else return false

def Line.isHeader? (l : Line) (d : Directive) : Checked Bool :=
  if l.tokens.length = 2 then return (← index l.tokens 0).isDir .header && (← index l.tokens 1).isDir d
  else return false

def Headers.note? (h : Headers) (line : Line) (place : Nat) : Checked Headers := do
  let fail (e : LayoutError) : Checked Headers := throw (.located line.firstLoc (.layout e))
  let head ← index line.tokens 0
  if !head.isDir .header then return h
  else if ← line.isHeader? .data then
    if h.data.isSome then fail (.duplicateSection .data) else return { h with data := some place }
  else if ← line.isHeader? .text then
    if h.text.isSome then fail (.duplicateSection .text) else return { h with text := some place }
  else fail .unknownSection

def checkSections? (lines : List Line) : Checked Sections :=
  let fail (line : Line) (e : LayoutError) : Checked Sections := throw (.located line.firstLoc (.layout e))
  match lines.head?, lines.getLast? with
  | some first, some last => do
    if !((← first.isHeader? .data) || (← first.isHeader? .text)) then fail first .missingSectionHeader
    else if !(← last.isLoneDir? .finish) then fail last .missingEnd
    else
      let headers ← lines.zipIdx.foldlM (fun (h : Headers) (line, place) => h.note? line place) {}
      match headers.text with
      | none => throw ⟨none, .layout .missingTextSection⟩
      | some text =>
        match headers.data.filter (text < ·) with
        | some data => fail (← index lines data) .dataAfterText
        | none => return ⟨headers.data, text⟩
  | _, _ => throw ⟨none, .layout .missingSectionHeader⟩

/-- `layoutProgram` with the lines behind the first two as a slice that ends in front of the last line. -/
def layoutProgram? (text : Nat) (lines : List Line) (symbols : Symbols) (wanted : Option Nat) :
    Checked ProgramState := do
  let header ← index lines text
  let second := lines[text + 1]?
  match second.bind fun line => globalName? line.tokens with
  | none => throw (.located (second.getD header).firstLoc (.layout .missingGlobal))
  | some entry =>
    let start : ProgramState := { symbols := symbols, globals := [entry] }
    let behind ← slice lines (text + 2) (lines.length - 1)
    let s ← (behind.foldlM (ProgramState.add wanted) start : Except Diagnostic ProgramState)
    match s.globals.find? fun (name, _) => (s.symbols.label? name).isNone with
    | some (name, loc) => throw (.located loc (.layout (.unresolvedGlobal name)))
    | none => return s

/-- `Sections.dataLines` as a slice between the headers. -/
def Sections.dataLines? (s : Sections) (lines : List Line) : Checked (List Line) :=
  match s.data with
  | some data => slice lines (data + 1) s.text
  | none => return []

def withEntryCells? (bytes : Array Byte) (entry : Nat) : Checked (Array Byte) := do
  let w := BitVec.ofNat 16 entry
  let bytes ← put bytes entryLowCell (lowByte w)
  put bytes entryHighCell (highByte w)

/-- `layout` with every access checked. -/
def layout? (lines : List Line) (wanted : Option Nat) : Checked Layout := do
  let sections ← checkSections? lines
  checkMnemonics lines
  let program ← layoutProgram? sections.text lines Symbols.predefined wanted
  let data ← layoutData (← sections.dataLines? lines) program.symbols
  let entry := (program.globals.head?.bind fun (name, _) => data.symbols.label? name).getD 0
  return ⟨program.slots, ← withEntryCells? data.bytes entry, data.symbols, program.breakpoint⟩

theorem gives_isLoneDir (l : Line) (d : Directive) : Gives (l.isLoneDir? d) (.ok (l.isLoneDir d)) := by
  unfold Line.isLoneDir? Line.isLoneDir
  split
  · next hlength =>
    obtain ⟨t, htokens⟩ := List.length_eq_one_iff.1 hlength
    rw [htokens]
    exact (Gives.index rfl).access (.ok _)
  · next hlength =>
    split
    · next t htokens => exact absurd (congrArg List.length htokens) hlength
    · exact .ok _

theorem gives_isHeader (l : Line) (d : Directive) : Gives (l.isHeader? d) (.ok (l.isHeader d)) := by
  unfold Line.isHeader? Line.isHeader
  split
  · next hlength =>
    obtain ⟨t, u, htokens⟩ := List.length_eq_two.1 hlength
    rw [htokens]
    exact (Gives.index rfl).access ((Gives.index rfl).access (.ok _))
  · next hlength =>
    split
    · next t u htokens => exact absurd (congrArg List.length htokens) hlength
    · exact .ok _

/-- A line that is not empty is noted by its first token. -/
theorem gives_note {line : Line} (hline : line.tokens ≠ []) (h : Headers) (place : Nat) :
    Gives (h.note? line place) (h.note line place) := by
  obtain ⟨head, rest, htokens⟩ := List.exists_cons_of_ne_nil hline
  unfold Headers.note? Headers.note
  dsimp only
  refine (Gives.index (a := head) (by rw [htokens]; rfl)).access ?_
  rw [htokens, List.head?_cons, Option.any_some]
  split
  · exact .ok h
  · refine (gives_isHeader line .data).access ?_
    split
    · split
      · exact .error _
      · exact .ok _
    · refine (gives_isHeader line .text).access ?_
      split
      · split
        · exact .error _
        · exact .ok _
      · exact .error _

theorem gives_checkSections {lines : List Line} (h : ∀ line ∈ lines, line.tokens ≠ []) :
    Gives (checkSections? lines) (checkSections lines) := by
  have hfold := Gives.foldlM (fun (headers : Headers) (p : Line × Nat) (hp : p ∈ lines.zipIdx) =>
    gives_note (h p.1 (List.fst_mem_of_mem_zipIdx hp)) headers p.2) {}
  unfold checkSections? checkSections
  dsimp only
  cases lines.head? with
  | none => exact .error _
  | some first =>
    cases lines.getLast? with
    | none => exact .error _
    | some last =>
      dsimp only
      refine (gives_isHeader first .data).access ((gives_isHeader first .text).access ?_)
      split
      · exact .error _
      · refine (gives_isLoneDir last .finish).access ?_
        split
        · exact .error _
        · refine hfold.bind fun headers hheaders => ?_
          have hof : headers.Of ([] ++ lines) := foldlM_note_ok [] Headers.of_nil hheaders
          cases headers.text with
          | none => exact .error _
          | some text =>
            dsimp only
            cases hafter : headers.data.filter (text < ·) with
            | none => exact .ok _
            | some data =>
              obtain ⟨line, hline, -⟩ := (hof.data data).1 (Option.filter_eq_some_iff.1 hafter).1
              rw [List.nil_append] at hline
              dsimp only
              rw [hline]
              exact (Gives.index hline).access (.error _)

/-- The program pass reads the text header, and its slice is in range as the line of the entry is not the last one. -/
theorem gives_layoutProgram {lines : List Line} {s : Sections} (h : checkSections lines = .ok s) (symbols : Symbols)
    (wanted : Option Nat) :
    Gives (layoutProgram? s.text lines symbols wanted) (layoutProgram s lines symbols wanted) := by
  obtain ⟨front, last, rfl, -, hlone⟩ := checkSections_concat h
  have htext := text_lt_of_checkSections h
  unfold layoutProgram? layoutProgram
  dsimp only
  have hheader := List.getElem?_eq_getElem htext
  rw [← List.getElem?_append_left htext] at hheader
  refine (Gives.index hheader).access ?_
  cases hentry : (front ++ [last])[s.text + 1]?.bind fun line => globalName? line.tokens with
  | none =>
    dsimp only
    rw [hheader]
    cases (front ++ [last])[s.text + 1]? with
    | none => exact .error _
    | some second => exact .error _
  | some entry =>
    obtain ⟨second, hsecond, hglobal⟩ := Option.bind_eq_some_iff.1 hentry
    have hplace := entry_lt_of_checkSections h hsecond hglobal
    dsimp only
    rw [Sections.textLines, List.dropLast_eq_take]
    refine (Gives.slice ?_ (Nat.sub_le _ _)).access ((Gives.lift _).bind fun program _ => ?_)
    · rw [List.length_append, List.length_singleton]
      omega
    · cases program.globals.find? fun (name, _) => (program.symbols.label? name).isNone with
      | none => exact .ok _
      | some global => exact .error _

theorem gives_dataLines {lines : List Line} {s : Sections} (h : checkSections lines = .ok s) :
    Gives (s.dataLines? lines) (.ok (s.dataLines lines)) := by
  obtain ⟨front, last, rfl, -, -⟩ := checkSections_concat h
  have htext := text_lt_of_checkSections h
  have hcut := checkSections_cut h
  unfold Sections.dataLines? Sections.dataLines
  cases hdata : s.data with
  | none => exact .ok _
  | some data =>
    have hlt := (documented_of_checkSections h).before data s.text ((hcut.data data).1 hdata) ((hcut.text s.text).1 rfl)
    exact Gives.slice hlt (by rw [List.length_append]; omega)

theorem gives_withEntry {bytes : Array Byte} (h : ramStart ≤ bytes.size) (entry : Nat) :
    Gives (withEntryCells? bytes entry) (.ok (withEntry bytes entry)) := by
  have hlow : entryLowCell < bytes.size := Nat.lt_of_lt_of_le (by decide) h
  have hhigh : entryHighCell < bytes.size := Nat.lt_of_lt_of_le (by decide) h
  exact (Gives.put hlow _).access (Gives.put (by rwa [Array.size_setIfInBounds]) _)

/-- Every access of the layout of lines that are not empty is in range. -/
theorem gives_layout {lines : List Line} (h : ∀ line ∈ lines, line.tokens ≠ []) (wanted : Option Nat) :
    Gives (layout? lines wanted) (layout lines wanted) := by
  unfold layout? layout
  refine (gives_checkSections h).bind fun s hs => (Gives.lift _).bind fun _ _ =>
    (gives_layoutProgram hs _ wanted).bind fun program _ => (gives_dataLines hs).access ?_
  refine (Gives.lift _).bind fun data hdata => ?_
  obtain ⟨added, hadded⟩ := (layoutData_grows hdata).bytes
  refine (gives_withEntry ?_ _).access (.ok _)
  rw [hadded, Array.size_append, Array.size_replicate]
  exact Nat.le_add_right _ _

/-- The lines of a source have sections exactly if they are of the structure that a program must have. The sections cut
them into headers and the lines of each pass, and no access of the layout is out of range. -/
theorem layout_in_range {source : String} {lines : List Line} (h : tokenize source = .ok lines) :
    ((∃ s, checkSections lines = .ok s) ↔ Documented (lines.map Line.lexemes)) ∧
      (∀ s, checkSections lines = .ok s → s.Cut lines) ∧
      ∀ wanted, (layout? lines wanted).run = some (layout lines wanted) :=
  ⟨⟨fun ⟨_, hs⟩ => documented_of_checkSections hs, checkSections_of_documented⟩, fun _ => checkSections_cut,
    gives_layout fun line hline => ((tokenizeLine_of_tokenize h).2 line hline).1⟩

def bothSections : String := ".section .data\n.byte 7\n.section .text\n.global main\nmain: NOP\n.end"

def bothLines : List Line := [
  ⟨1, [⟨.dir .header, ".section", ⟨1, 1⟩⟩, ⟨.dir .data, ".data", ⟨1, 10⟩⟩]⟩,
  ⟨2, [⟨.dir .byte, ".byte", ⟨2, 1⟩⟩, ⟨.int 7, "7", ⟨2, 7⟩⟩]⟩,
  ⟨3, [⟨.dir .header, ".section", ⟨3, 1⟩⟩, ⟨.dir .text, ".text", ⟨3, 10⟩⟩]⟩,
  ⟨4, [⟨.dir .global, ".global", ⟨4, 1⟩⟩, ⟨.ref "main", "main", ⟨4, 9⟩⟩]⟩,
  ⟨5, [⟨.label "main", "main:", ⟨5, 1⟩⟩, ⟨.inst "NOP", "NOP", ⟨5, 7⟩⟩]⟩,
  ⟨6, [⟨.dir .finish, ".end", ⟨6, 1⟩⟩]⟩]

def bareSection : String := ".section .text\n.end"

def bareLines : List Line := [
  ⟨1, [⟨.dir .header, ".section", ⟨1, 1⟩⟩, ⟨.dir .text, ".text", ⟨1, 10⟩⟩]⟩,
  ⟨2, [⟨.dir .finish, ".end", ⟨2, 1⟩⟩]⟩]

/-- A program with both sections, and one in which the slice of the program pass would be out of range. -/
theorem layout_in_range_sections :
    tokenize bothSections = .ok bothLines ∧ Documented (bothLines.map Line.lexemes) ∧
      (⟨some 0, 2⟩ : Sections).Cut bothLines ∧ (layout? bothLines none).run = some (layout bothLines none) ∧
      tokenize bareSection = .ok bareLines ∧ Documented (bareLines.map Line.lexemes) ∧
      (slice bareLines 2 1).run = none ∧
      (layout? bareLines none).run = some (.error ⟨some ⟨2, 1⟩, .layout .missingGlobal⟩) := by
  have hboth : tokenize bothSections = .ok bothLines := by decide +kernel
  have hsections : checkSections bothLines = .ok ⟨some 0, 2⟩ := by decide +kernel
  have hbare : tokenize bareSection = .ok bareLines := by decide +kernel
  have hsection : checkSections bareLines = .ok ⟨none, 0⟩ := by decide +kernel
  have hreport : layout bareLines none = .error ⟨some ⟨2, 1⟩, .layout .missingGlobal⟩ := by rfl
  obtain ⟨hdocumented, hcut, hrange⟩ := layout_in_range hboth
  obtain ⟨hdocumented', -, hrange'⟩ := layout_in_range hbare
  exact ⟨hboth, hdocumented.1 ⟨_, hsections⟩, hcut _ hsections, hrange none, hbare, hdocumented'.1 ⟨_, hsection⟩, rfl,
    hreport ▸ hrange' none⟩

end Avr

import Avr.Diagnostic

/-!
# The sections of a program

* `checkSections` : finds the headers of the data and text sections and checks their order and number;
* `checkMnemonics` : every word that can only be a mnemonic is one;
* `Sections.dataLines`, `Sections.textLines` : the lines of each section.
-/

namespace Avr

/-- The places of the section headers among the lines of a program. -/
structure Sections where
  data : Option Nat
  text : Nat
deriving DecidableEq, Repr

namespace Sections

/-- The lines between the data header, if there is one, and the text header. -/
def dataLines (s : Sections) (lines : List Line) : List Line :=
  match s.data with
  | some data => (lines.take s.text).drop (data + 1)
  | none => []

/-- The lines behind the text header and the `.global` line after it, without the last line. -/
def textLines (s : Sections) (lines : List Line) : List Line := lines.dropLast.drop (s.text + 2)

end Sections

structure Headers where
  data : Option Nat := none
  text : Option Nat := none

def Headers.note (h : Headers) (line : Line) (place : Nat) : Except Diagnostic Headers :=
  let fail (e : LayoutError) := .error (.located line.firstLoc (.layout e))
  if !line.tokens.head?.any (·.isDir .header) then .ok h
  else if line.isHeader .data then
    if h.data.isSome then fail (.duplicateSection .data) else .ok { h with data := some place }
  else if line.isHeader .text then
    if h.text.isSome then fail (.duplicateSection .text) else .ok { h with text := some place }
  else fail .unknownSection

/-- Checks that the program starts with a section header and ends with `.end`, and that there is one text
section and at most one data section, before it. -/
def checkSections (lines : List Line) : Except Diagnostic Sections :=
  let fail (line : Line) (e : LayoutError) := .error (.located line.firstLoc (.layout e))
  match lines.head?, lines.getLast? with
  | some first, some last =>
    if !(first.isHeader .data || first.isHeader .text) then fail first .missingSectionHeader
    else if !last.isLoneDir .finish then fail last .missingEnd
    else do
      let headers ← lines.zipIdx.foldlM (fun (h : Headers) (line, place) => h.note line place) {}
      match headers.text with
      | none => throw ⟨none, .layout .missingTextSection⟩
      | some text =>
        match headers.data.filter (text < ·) with
        | some data => throw ⟨lines[data]?.map Line.firstLoc, .layout .dataAfterText⟩
        | none => return ⟨headers.data, text⟩
  | _, _ => .error ⟨none, .layout .missingSectionHeader⟩

/-- Whether a token has the form of a mnemonic and is none. -/
def Token.isUnknownMnemonic (t : Token) : Bool :=
  match t.lexeme with
  | .inst name => (Mnemonic.ofName? name).isNone
  | _ => false

def checkMnemonics (lines : List Line) : Except Diagnostic Unit :=
  match (lines.flatMap Line.tokens).find? Token.isUnknownMnemonic with
  | some t => .error (.located t.loc (.layout (.unknownMnemonic t.raw)))
  | none => .ok ()

end Avr

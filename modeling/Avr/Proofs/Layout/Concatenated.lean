import Avr.Proofs.Layout.Emitted
import Avr.Proofs.Layout.Image
import Avr.Proofs.Layout.Reference

/-!
# Data memory as statements in a row

* `DataStatement`, `Line.StandsFor` : what a line of the data section stands for, its label included;
* `emitted`, `history` : the bytes of statements in a row and the names that they bind;
* `LaysOut` : lines stand for statements, each read with the names bound before it; `LaysOut.label` : where labels
  point, `LaysOut.standsFor` : the view of one line;
* `add_emits`, `foldlM_add_emits` : such lines add these bytes or overflow; `laysOut_of_foldlM` : other lines fail;
* `Concatenated` : what this says of a layout and its image;
* `layout_concatenates` : data memory is the bytes of the statements, and is laid out if and only if they fit.
-/

namespace Avr

/-! ## Lines -/

/-- A line of the data section: the label that it starts with, and what it stands for behind that. -/
structure DataStatement where
  label : Option String
  item : DataItem

def behindLabel : List Token → List Token
  | ⟨.label _, _, _⟩ :: rest => rest
  | tokens => tokens

namespace DataStatement

def labelled (st : DataStatement) (a : Nat) : List (String × Binding) :=
  (st.label.map fun name => (name, .label a)).toList

/-- The names that a statement at an address binds, in order. -/
def bindings (st : DataStatement) (a : Nat) : List (String × Binding) := st.labelled a ++ st.item.bindings

end DataStatement

def emitted (sts : List DataStatement) : List Byte := sts.flatMap fun st => st.item.emitted

/-- The names that statements in a row bind, the first of them at an address. -/
def history (a : Nat) : List DataStatement → List (String × Binding)
  | [] => []
  | st :: sts => st.bindings a ++ history (a + st.item.emitted.length) sts

/-- What a line stands for at an address, under the names bound before it: its label is new, its tokens are read with
the label bound, and the name that it binds can be bound. -/
structure Line.StandsFor (line : Line) (symbols : Symbols) (a : Nat) (st : DataStatement) : Prop where
  label : leadingLabel? line.tokens = st.label
  free : ∀ d ∈ st.labelled a, symbols.Admits d.1 d.2
  reads : Reads (symbols.bindAll (st.labelled a)) (behindLabel line.tokens) st.item
  admits : ∀ d ∈ st.item.bindings, (symbols.bindAll (st.labelled a)).Admits d.1 d.2

/-- What lines in a row stand for, each behind the bytes and the names of those before it. -/
inductive LaysOut : Symbols → Nat → List Line → List DataStatement → Prop
  | nil {symbols : Symbols} {a : Nat} : LaysOut symbols a [] []
  | cons {symbols : Symbols} {a : Nat} {line : Line} {lines : List Line} {st : DataStatement}
      {sts : List DataStatement} (hline : line.StandsFor symbols a st)
      (hlines : LaysOut (symbols.bindAll (st.bindings a)) (a + st.item.emitted.length) lines sts) :
      LaysOut symbols a (line :: lines) (st :: sts)

theorem bindLabel_eq_ok_iff {tokens rest : List Token} {symbols t : Symbols} {a : Nat} (st : DataStatement)
    (hlabel : leadingLabel? tokens = st.label) : bindLabel tokens symbols a = .ok (rest, t) ↔
      rest = behindLabel tokens ∧ (∀ d ∈ st.labelled a, symbols.Admits d.1 d.2) ∧
        t = symbols.bindAll (st.labelled a) := by
  rw [DataStatement.labelled, ← hlabel]
  unfold bindLabel leadingLabel? behindLabel
  split
  · next name raw loc rest' =>
    cases hdefine : symbols.define name (.label a) with
    | ok symbols' =>
      obtain ⟨hadmits, rfl⟩ := Symbols.define_eq_ok_iff.1 hdefine
      simp [Symbols.bindAll, hadmits, eq_comm]
    | error e =>
      have hfixed : ¬ symbols.Admits name (.label a) := by
        intro hadmits
        rw [Symbols.define_eq_ok_iff.2 ⟨hadmits, rfl⟩] at hdefine
        cases hdefine
      simp [hfixed]
  · simp [Symbols.bindAll, eq_comm]

namespace DataState

variable {s t : DataState} {line : Line} {lines : List Line} {sts : List DataStatement}

/-- A line that stands for a statement adds its bytes and binds its names. -/
theorem add_emits {st : DataStatement} (h : line.StandsFor s.symbols s.bytes.size st) (hs : s.bytes.size ≤ ramSize) :
    s.Emits st.item.emitted (s.symbols.bindAll (st.bindings s.bytes.size)) (s.add line) := by
  have hreads := h.reads
  have hadmits := h.admits
  rw [add, (bindLabel_eq_ok_iff st h.label).2 ⟨rfl, h.free, rfl⟩, DataStatement.bindings, Symbols.bindAll_append]
  generalize behindLabel line.tokens = tokens at hreads
  generalize s.symbols.bindAll (st.labelled s.bytes.size) = symbols at hreads hadmits
  cases tokens with
  | nil =>
    generalize st.item = item at hreads
    cases hreads
    exact emits_ok hs symbols
  | cons head args =>
    obtain ⟨dir, hdir⟩ := hreads.exists_dir
    have hemits := directive_emits (s := { s with symbols := symbols }) hdir hreads hadmits hs
    simp only [bind, Except.bind, hdir]
    exact ⟨hemits.fits, hemits.overflows⟩

/-- A line that is added stands for a statement. -/
theorem standsFor_of_add (h : s.add line = .ok t) : ∃ st, line.StandsFor s.symbols s.bytes.size st := by
  obtain ⟨⟨tokens, symbols⟩, hbind, h⟩ := bind_eq_ok.1 h
  obtain ⟨rfl, hfree, rfl⟩ := (bindLabel_eq_ok_iff ⟨leadingLabel? line.tokens, .nothing⟩ rfl).1 hbind
  dsimp only at h
  split at h
  · next hnone => exact ⟨⟨_, .nothing⟩, rfl, hfree, hnone ▸ .nothing, fun _ hd => absurd hd List.not_mem_nil⟩
  · next head args hsome =>
    split at h
    · next dir hdir =>
      obtain ⟨item, hreads, hadmits⟩ := reads_of_directive hdir h
      exact ⟨⟨_, item⟩, rfl, hfree, hsome ▸ hreads, hadmits⟩
    · cases h

/-- Lines that stand for statements in a row add their bytes and bind their names. By induction on the lines. -/
theorem foldlM_add_emits {symbols : Symbols} {a : Nat} (h : LaysOut symbols a lines sts)
    (hsymbols : s.symbols = symbols) (ha : s.bytes.size = a) (hs : s.bytes.size ≤ ramSize) :
    s.Emits (emitted sts) (symbols.bindAll (history a sts)) (lines.foldlM add s) := by
  induction h generalizing s with
  | nil =>
    subst hsymbols
    exact emits_ok hs s.symbols
  | cons hline _ ih =>
    subst hsymbols
    subst ha
    rw [history, Symbols.bindAll_append, List.foldlM_cons]
    refine (add_emits hline hs).bind fun hfits => ih rfl (size_append_bytes _ _) ?_
    rwa [size_append_bytes]

/-- Lines that are added stand for statements in a row. By induction on the lines. -/
theorem laysOut_of_foldlM (h : lines.foldlM add s = .ok t) (hs : s.bytes.size ≤ ramSize) :
    ∃ sts, LaysOut s.symbols s.bytes.size lines sts := by
  induction lines generalizing s with
  | nil => exact ⟨[], .nil⟩
  | cons line lines ih =>
    obtain ⟨u, hu, h⟩ := foldlM_cons_eq_ok.1 h
    obtain ⟨st, hline⟩ := standsFor_of_add hu
    have hemits := add_emits hline hs
    by_cases hfits : s.bytes.size + st.item.emitted.length ≤ ramSize
    · obtain rfl := Except.ok.inj (hu.symm.trans (hemits.fits hfits))
      rw [← size_append_bytes] at hfits
      obtain ⟨sts, hsts⟩ := ih h hfits
      dsimp only at hsts
      rw [size_append_bytes] at hsts
      exact ⟨st :: sts, .cons hline hsts⟩
    · obtain ⟨loc, hloc⟩ := hemits.overflows (Nat.not_le.1 hfits)
      rw [hloc] at hu
      cases hu

end DataState

/-! ## Statements in a row -/

section

variable {symbols : Symbols} {a : Nat} {line : Line} {lines : List Line} {st : DataStatement} {sts : List DataStatement}

theorem emitted_cons (st : DataStatement) (sts : List DataStatement) :
    emitted (st :: sts) = st.item.emitted ++ emitted sts := List.flatMap_cons

theorem DataStatement.length_labelled_le (st : DataStatement) (a : Nat) : (st.labelled a).length ≤ 1 := by
  obtain ⟨label, item⟩ := st
  cases label <;> simp [labelled]

theorem DataItem.length_bindings_le (item : DataItem) : item.bindings.length ≤ 1 := by
  cases item <;> simp [bindings]

theorem Line.StandsFor.keeps (h : line.StandsFor symbols a st) :
    symbols.Extends (symbols.bindAll (st.bindings a)) ∧
      (symbols.bindAll (st.labelled a)).Extends (symbols.bindAll (st.bindings a)) := by
  have hitem := Symbols.extends_bindAll st.item.length_bindings_le h.admits
  rw [← Symbols.bindAll_append] at hitem
  exact ⟨(Symbols.extends_bindAll (st.length_labelled_le a) h.free).trans hitem, hitem⟩

namespace LaysOut

theorem length_eq (h : LaysOut symbols a lines sts) : sts.length = lines.length := by
  induction h with
  | nil => rfl
  | cons _ _ ih => rw [List.length_cons, List.length_cons, ih]

theorem keeps (h : LaysOut symbols a lines sts) : symbols.Extends (symbols.bindAll (history a sts)) := by
  induction h with
  | nil => exact .refl _
  | cons hline _ ih =>
    rw [history, Symbols.bindAll_append]
    exact hline.keeps.1.trans ih

/-- A line stands for its statement at the address behind the bytes of those before it, under the names of those. -/
theorem standsFor (h : LaysOut symbols a lines sts) {n : Nat} (hline : lines[n]? = some line)
    (hst : sts[n]? = some st) :
    line.StandsFor (symbols.bindAll (history a (sts.take n))) (a + (emitted (sts.take n)).length) st := by
  induction h generalizing n with
  | nil => cases hst
  | cons hhead _ ih =>
    cases n with
    | zero =>
      cases hline
      cases hst
      exact hhead
    | succ n =>
      have hlater := ih hline hst
      rw [List.take_succ_cons, history, Symbols.bindAll_append, emitted_cons, List.length_append, ← Nat.add_assoc]
      exact hlater

/-- A label is bound to the address behind the bytes of the statements before its own. -/
theorem label (h : LaysOut symbols a lines sts) {n : Nat} (hst : sts[n]? = some st) {name : String}
    (hname : st.label = some name) :
    (symbols.bindAll (history a sts)).label? name = some (a + (emitted (sts.take n)).length) := by
  induction h generalizing n with
  | nil => cases hst
  | @cons symbols a line lines st' sts hhead hlines ih =>
    rw [history, Symbols.bindAll_append]
    cases n with
    | zero =>
      obtain rfl := Option.some.inj hst
      have hbound : (symbols.bindAll (st'.labelled a)).label? name = some a := by
        rw [DataStatement.labelled, hname]
        exact Symbols.label?_bind_self symbols name a
      exact hlines.keeps name a (hhead.keeps.2 name a hbound)
    | succ n =>
      have hlater := ih hst
      rw [List.take_succ_cons, emitted_cons, List.length_append, ← Nat.add_assoc]
      exact hlater

end LaysOut

end

/-! ## The data section -/

section

variable {lines : List Line} {symbols : Symbols} {sts : List DataStatement} {data : DataState}

def windows : Array Byte := Array.replicate ramStart 0

theorem size_windows : windows.size = ramStart := Array.size_replicate

theorem size_windows_le : windows.size ≤ ramSize := by
  rw [size_windows]
  decide

theorem layoutData_emits (h : LaysOut symbols ramStart lines sts) :
    DataState.Emits ⟨windows, symbols⟩ (emitted sts) (symbols.bindAll (history ramStart sts))
      (layoutData lines symbols) :=
  DataState.foldlM_add_emits h rfl size_windows size_windows_le

theorem layoutData_of_fits (h : LaysOut symbols ramStart lines sts)
    (hfits : ramStart + (emitted sts).length ≤ ramSize) :
    layoutData lines symbols = .ok ⟨windows ++ emitted sts, symbols.bindAll (history ramStart sts)⟩ := by
  have hsize := size_windows
  exact (layoutData_emits h).fits (by dsimp only; omega)

theorem layoutData_of_overflows (h : LaysOut symbols ramStart lines sts)
    (hover : ramSize < ramStart + (emitted sts).length) :
    ∃ loc, layoutData lines symbols = .error (.located loc (.layout .ramOverflow)) := by
  have hsize := size_windows
  exact (layoutData_emits h).overflows (by dsimp only; omega)

theorem exists_laysOut (h : layoutData lines symbols = .ok data) : ∃ sts, LaysOut symbols ramStart lines sts := by
  have hsts := DataState.laysOut_of_foldlM (s := ⟨windows, symbols⟩) h size_windows_le
  dsimp only at hsts
  rwa [size_windows] at hsts

/-- A data section that is laid out is its statements in a row, which fit into data memory. -/
theorem layoutData_ok (hsts : LaysOut symbols ramStart lines sts) (h : layoutData lines symbols = .ok data) :
    data = ⟨windows ++ emitted sts, symbols.bindAll (history ramStart sts)⟩ ∧
      ramStart + (emitted sts).length ≤ ramSize := by
  by_cases hfits : ramStart + (emitted sts).length ≤ ramSize
  · exact ⟨Except.ok.inj (h.symm.trans (layoutData_of_fits hsts hfits)), hfits⟩
  · obtain ⟨loc, hloc⟩ := layoutData_of_overflows hsts (Nat.not_le.1 hfits)
    rw [h] at hloc
    cases hloc

end

/-! ## Programs -/

/-- The address of statement `n`: behind the bytes of those before it. -/
def addressAt (sts : List DataStatement) (n : Nat) : Nat := ramStart + (emitted (sts.take n)).length

def namesAt (sts : List DataStatement) (n : Nat) : List (String × Binding) := history ramStart (sts.take n)

/-- The table that statement `n` is read with: the names bound before it, and its own label. -/
def tableAt (start : Symbols) (sts : List DataStatement) (n : Nat) (st : DataStatement) : Symbols :=
  (start.bindAll (namesAt sts n)).bindAll (st.labelled (addressAt sts n))

/-- The data memory of a program is its statements in a row, each of them read with the names bound before it. A
constant in it has the value of its last definition there, or the one that every program starts with. -/
structure Concatenated (start : Symbols) (lines : List Line) (sts : List DataStatement) (l : Layout) : Prop where
  length : sts.length = lines.length
  standsFor : ∀ n (line : Line) (st : DataStatement), lines[n]? = some line → sts[n]? = some st →
    line.StandsFor (start.bindAll (namesAt sts n)) (addressAt sts n) st
  names : ∀ n (st : DataStatement) name, sts[n]? = some st → (tableAt start sts n st).find? name =
    (Symbols.lastBinding? name (namesAt sts n ++ st.labelled (addressAt sts n))).or (start.find? name)
  constants : ∀ n (st : DataStatement) (t : Token) name v, sts[n]? = some st → t.lexeme = .ref name →
    (tableAt start sts n st).constant? name = some v →
      resolveRef (tableAt start sts n st) .value t = .ok { t with lexeme := .int v } ∧
      (Symbols.lastBinding? name (namesAt sts n) = some (.constant v) ∨
        (Symbols.lastBinding? name (namesAt sts n) = none ∧ Symbols.predefined.constant? name = some v))
  labels : ∀ n (st : DataStatement) name, sts[n]? = some st → st.label = some name →
    l.symbols.label? name = some (addressAt sts n)
  bytes : l.bytes.toList.drop ramStart = emitted sts
  room : (emitted sts).length ≤ ramSize - ramStart
  image : ∀ r image, l.resolve = .ok r → r.image = .ok image →
    image.dataEnd = ramStart + (emitted sts).length ∧
      (image.data.toList.take image.dataEnd).drop ramStart = emitted sts

theorem constant?_labelled {symbols : Symbols} {st : DataStatement} {a : Nat} (ds : List (String × Binding))
    {name : String} {v : Int} (h : ((symbols.bindAll ds).bindAll (st.labelled a)).constant? name = some v) :
    Symbols.lastBinding? name ds = some (.constant v) ∨
      (Symbols.lastBinding? name ds = none ∧ symbols.constant? name = some v) := by
  rw [Symbols.constant?_eq_some_iff, Symbols.find?_bindAll, Option.or_eq_some_iff] at h
  obtain hlabel | ⟨-, h⟩ := h
  · obtain ⟨label, item⟩ := st
    cases label with
    | none => cases hlabel
    | some other =>
      by_cases hname : other = name
      · simp [DataStatement.labelled, Symbols.lastBinding?, Symbols.bindingOf?, hname] at hlabel
      · simp [DataStatement.labelled, Symbols.lastBinding?, Symbols.bindingOf?, hname] at hlabel
  · rw [Symbols.find?_bindAll, Option.or_eq_some_iff, ← Symbols.constant?_eq_some_iff] at h
    exact h

/-- The constants behind the text section are those before it. -/
theorem constant?_of_add {wanted : Option Nat} {s t : ProgramState} {line : Line}
    (h : ProgramState.add wanted s line = .ok t) {name : String} {v : Int} (hv : t.symbols.constant? name = some v) :
    s.symbols.constant? name = some v := by
  obtain ⟨⟨tokens, symbols⟩, hbind, h⟩ := bind_eq_ok.1 h
  obtain ⟨-, -, rfl⟩ := (bindLabel_eq_ok_iff ⟨leadingLabel? line.tokens, .nothing⟩ rfl).1 hbind
  obtain ⟨hsymbols, -⟩ := ProgramState.addTokens_ok h
  rw [hsymbols] at hv
  obtain hlast | ⟨-, hbefore⟩ := constant?_labelled [] hv
  · cases hlast
  · exact hbefore

theorem constant?_of_foldlM_add {wanted : Option Nat} {lines : List Line} {s t : ProgramState}
    (h : lines.foldlM (ProgramState.add wanted) s = .ok t) {name : String} {v : Int}
    (hv : t.symbols.constant? name = some v) : s.symbols.constant? name = some v := by
  induction lines generalizing s with
  | nil =>
    cases h
    exact hv
  | cons line lines ih =>
    obtain ⟨u, hu, h⟩ := foldlM_cons_eq_ok.1 h
    exact constant?_of_add hu (ih h)

theorem resolveRef_constant {symbols : Symbols} {t : Token} {name : String} {v : Int} (ht : t.lexeme = .ref name)
    (hv : symbols.constant? name = some v) : resolveRef symbols .value t = .ok { t with lexeme := .int v } := by
  rw [Symbols.constant?_eq_some_iff] at hv
  rw [resolveRef, ht]
  dsimp only
  rw [Symbols.meaning?, hv]

theorem drop_withEntry (bytes : Array Byte) (entry : Nat) :
    (withEntry bytes entry).toList.drop ramStart = bytes.toList.drop ramStart := by
  have hlow : entryLowCell < ramStart := by decide
  have hhigh : entryHighCell < ramStart := by decide
  simp [withEntry, List.drop_set, hlow, hhigh]

theorem size_withEntry (bytes : Array Byte) (entry : Nat) : (withEntry bytes entry).size = bytes.size := by
  simp [withEntry]

theorem take_ofFn {n : Nat} {bytes : Array Byte} (h : bytes.size ≤ n) :
    (Vector.ofFn fun i : Fin n => bytes[i.val]?.getD 0).toList.take bytes.size = bytes.toList := by
  rw [Vector.toList_ofFn]
  apply List.ext_getElem
  · simp [h]
  · intro i hi hi'
    rw [Array.length_toList] at hi'
    simp [hi']

def ProgramState.finish (program : ProgramState) (data : DataState) : Layout :=
  ⟨program.slots, withEntry data.bytes
    ((program.globals.head?.bind fun (name, _) => data.symbols.label? name).getD 0), data.symbols, program.breakpoint⟩

/-- A program whose text section is laid out is laid out if and only if its data section is. -/
theorem layout_eq_map {lines : List Line} {wanted : Option Nat} {sections : Sections} {program : ProgramState}
    (hsections : checkSections lines = .ok sections) (hmnemonics : checkMnemonics lines = .ok ())
    (hprogram : layoutProgram sections lines .predefined wanted = .ok program) :
    layout lines wanted = (layoutData (sections.dataLines lines) program.symbols).map program.finish := by
  rw [layout, hsections]
  show (checkMnemonics lines >>= _) = _
  rw [hmnemonics]
  show (layoutProgram sections lines .predefined wanted >>= _) = _
  rw [hprogram]
  show (layoutData (sections.dataLines lines) program.symbols >>= _) = _
  cases layoutData (sections.dataLines lines) program.symbols <;> rfl

theorem concatenated_finish {lines rows : List Line} {wanted : Option Nat} {sections : Sections}
    {program : ProgramState} {sts : List DataStatement} {data : DataState}
    (hprogram : layoutProgram sections lines .predefined wanted = .ok program)
    (hsts : LaysOut program.symbols ramStart rows sts) (hdata : layoutData rows program.symbols = .ok data) :
    Concatenated program.symbols rows sts (program.finish data) := by
  obtain ⟨rfl, hroom⟩ := layoutData_ok hsts hdata
  obtain ⟨entry, hfold, -⟩ := layoutProgram_ok hprogram
  have hbytes : (windows ++ emitted sts).toList.drop ramStart = emitted sts := by
    have hlength : windows.toList.length = ramStart := size_windows
    rw [Array.toList_appendList, List.drop_left' hlength]
  have hsize : (windows ++ emitted sts).size = ramStart + (emitted sts).length := by
    rw [DataState.size_append_bytes, size_windows]
  refine ⟨hsts.length_eq, fun n line st => hsts.standsFor, fun n st name _ => ?_, fun n st t name v _ ht hv => ?_,
    fun n st name hst hname => hsts.label hst hname, ?_, by omega, fun r image hr himage => ?_⟩
  · rw [tableAt, ← Symbols.bindAll_append, Symbols.find?_bindAll]
  · refine ⟨resolveRef_constant ht hv, (constant?_labelled _ hv).imp_right fun ⟨hnone, hstart⟩ => ⟨hnone, ?_⟩⟩
    exact constant?_of_foldlM_add hfold hstart
  · rw [ProgramState.finish, drop_withEntry, hbytes]
  · obtain ⟨-, -, -, -, -, -, hcells, hend⟩ := image_slots hr himage
    rw [ProgramState.finish] at hcells hend
    dsimp only at hcells hend
    rw [size_withEntry, hsize] at hend
    refine ⟨hend, ?_⟩
    rw [hend, ← hsize, ← size_withEntry, hcells, take_ofFn (by rw [size_withEntry, hsize]; exact hroom),
      drop_withEntry, hbytes]

/-- The lines of a data section that is laid out stand for statements in a row. Whatever they stand for, data memory
from its start to the end of the data is the bytes of these, and they are laid out if and only if these bytes fit. -/
theorem layout_concatenates {lines : List Line} {wanted : Option Nat} {sections : Sections} {program : ProgramState}
    (hsections : checkSections lines = .ok sections) (hmnemonics : checkMnemonics lines = .ok ())
    (hprogram : layoutProgram sections lines .predefined wanted = .ok program) :
    (∀ l, layout lines wanted = .ok l →
      ∃ sts, LaysOut program.symbols ramStart (sections.dataLines lines) sts) ∧
      ∀ sts, LaysOut program.symbols ramStart (sections.dataLines lines) sts →
        (∀ l, layout lines wanted = .ok l → Concatenated program.symbols (sections.dataLines lines) sts l) ∧
        ((∃ l, layout lines wanted = .ok l) ↔ (emitted sts).length ≤ ramSize - ramStart) ∧
        (ramSize - ramStart < (emitted sts).length →
          ∃ loc, layout lines wanted = .error (.located loc (.layout .ramOverflow))) := by
  rw [layout_eq_map hsections hmnemonics hprogram]
  constructor
  · intro l hl
    obtain ⟨data, hdata, -⟩ := map_eq_ok.1 hl
    exact exists_laysOut hdata
  intro sts hsts
  have hconcatenated : ∀ l, (layoutData (sections.dataLines lines) program.symbols).map program.finish = .ok l →
      Concatenated program.symbols (sections.dataLines lines) sts l := by
    intro l hl
    obtain ⟨data, hdata, rfl⟩ := map_eq_ok.1 hl
    exact concatenated_finish hprogram hsts hdata
  have hroom : ramStart ≤ ramSize := by decide
  refine ⟨hconcatenated, ⟨fun ⟨l, hl⟩ => (hconcatenated l hl).room, fun hfits => ?_⟩, fun hover => ?_⟩
  · exact ⟨_, map_eq_ok.2 ⟨_, layoutData_of_fits hsts (by omega), rfl⟩⟩
  · obtain ⟨loc, hloc⟩ := layoutData_of_overflows hsts (by omega)
    exact ⟨loc, by rw [hloc]; rfl⟩

/-- A data section with a constant that is defined twice. -/
def rowsSource : String :=
  ".section .data\n.equ N, 1\n.equ N, 2\na: .byte N, -1\nb: .word a, 0x12345\n.string \"h\\n\"\n.space N, 7\n" ++
    ".section .text\n.global main\nmain: NOP\n.end"

def rowsTest (lines : List Line) : Bool :=
  (layout lines none).toOption.any fun l =>
    l.bytes.toList.drop ramStart == [2, 0xFF, 0x00, 0x01, 0x45, 0x23, 0x68, 0x0A, 0, 7, 7] &&
      l.symbols.label? "b" == some 0x102

theorem rowsTest_eq_true {lines : List Line} : rowsTest lines = true ↔ ∃ l, layout lines none = .ok l ∧
    l.bytes.toList.drop ramStart = [2, 0xFF, 0x00, 0x01, 0x45, 0x23, 0x68, 0x0A, 0, 7, 7] ∧
      l.symbols.label? "b" = some 0x102 := by
  rw [rowsTest]
  cases layout lines none with
  | ok l => simp [Except.toOption]
  | error e => simp [Except.toOption]

/-- The largest count that can be written. -/
def hugeSource : String :=
  ".section .data\n.space 9223372036854775807\n.section .text\n.global main\nmain: NOP\n.end"

def hugeLine : Line :=
  ⟨2, [⟨.dir .space, ".space", ⟨2, 1⟩⟩, ⟨.int 0x7FFFFFFFFFFFFFFF, "9223372036854775807", ⟨2, 8⟩⟩]⟩

/-- The passes of a source in front of its data section, and a test of what they give. -/
def preparedWith (source : String) (test : List Line → Sections → Bool) : Except Diagnostic Bool := do
  let lines ← tokenize source
  let sections ← checkSections lines
  checkMnemonics lines
  let _ ← layoutProgram sections lines .predefined none
  return test lines sections

theorem exists_prepared {source : String} {test : List Line → Sections → Bool}
    (h : (preparedWith source test).toOption = some true) : ∃ lines sections program, tokenize source = .ok lines ∧
      checkSections lines = .ok sections ∧ checkMnemonics lines = .ok () ∧
      layoutProgram sections lines .predefined none = .ok program ∧ test lines sections = true := by
  cases hfound : preparedWith source test with
  | error e =>
    rw [hfound] at h
    cases h
  | ok found =>
    rw [hfound] at h
    obtain rfl := Option.some.inj h
    obtain ⟨lines, hlines, hfound⟩ := bind_eq_ok.1 hfound
    obtain ⟨sections, hsections, hfound⟩ := bind_eq_ok.1 hfound
    obtain ⟨⟨⟩, hmnemonics, hfound⟩ := bind_eq_ok.1 hfound
    obtain ⟨program, hprogram, hfound⟩ := bind_eq_ok.1 hfound
    exact ⟨lines, sections, program, hlines, hsections, hmnemonics, hprogram, pure_eq_ok.1 hfound⟩

theorem integers_literal (symbols : Symbols) {t : Token} {v : Int} (ht : t.lexeme = .int v) :
    Integers symbols [t] [v] := by
  have hrefs : resolveRefs symbols .value [t] = .ok [t] := by
    rw [resolveRefs, mapM_singleton_eq_ok]
    exact ⟨t, rfl, by rw [resolveRef, ht]⟩
  have hselects : resolveSelects [t] = .ok [t] := by
    apply resolveSelects_noGroup
    simp [NoGroup, ht]
  have hkind : t.kind ≠ .comma := by
    rw [Token.kind, ht]
    show Kind.int ≠ Kind.comma
    decide
  have hsplit : splitArgs [t] = .ok [t] := splitArgs_eq_ok.2 (Alternates.one ⟨rfl, hkind⟩)
  refine ⟨[t], ⟨by simp, [t], ?_, hsplit⟩, .cons ht .nil⟩
  exact bind_eq_ok.2 ⟨[t], hrefs, bind_eq_ok.2 ⟨[t], hselects, evaluate_int ht⟩⟩

theorem laysOut_huge (symbols : Symbols) :
    LaysOut symbols ramStart [hugeLine] [⟨none, .space 0x7FFFFFFFFFFFFFFF 0⟩] :=
  .cons ⟨rfl, nofun, .space rfl (integers_literal symbols rfl), nofun⟩ .nil

theorem layout_concatenates_rows :
    (∃ lines sections program l sts, tokenize rowsSource = .ok lines ∧ checkSections lines = .ok sections ∧
      layoutProgram sections lines .predefined none = .ok program ∧ layout lines none = .ok l ∧
      LaysOut program.symbols ramStart (sections.dataLines lines) sts ∧
      Concatenated program.symbols (sections.dataLines lines) sts l ∧ l.symbols.label? "b" = some 0x102 ∧
      emitted sts = [2, 0xFF, 0x00, 0x01, 0x45, 0x23, 0x68, 0x0A, 0, 7, 7]) ∧
    ∃ lines, tokenize hugeSource = .ok lines ∧
      ∃ loc, layout lines none = .error (.located loc (.layout .ramOverflow)) := by
  constructor
  · have htest : (preparedWith rowsSource fun lines _ => rowsTest lines).toOption = some true := by decide +kernel
    obtain ⟨lines, sections, program, hlines, hsections, hmnemonics, hprogram, htest⟩ := exists_prepared htest
    obtain ⟨l, hl, hbytes, hlabel⟩ := rowsTest_eq_true.1 htest
    obtain ⟨hexists, hall⟩ := layout_concatenates hsections hmnemonics hprogram
    obtain ⟨sts, hsts⟩ := hexists l hl
    have hconcatenated := (hall sts hsts).1 l hl
    exact ⟨lines, sections, program, l, sts, hlines, hsections, hprogram, hl, hsts, hconcatenated, hlabel,
      hconcatenated.bytes.symm.trans hbytes⟩
  · have htest : (preparedWith hugeSource fun lines sections => sections.dataLines lines == [hugeLine]).toOption =
        some true := by decide +kernel
    obtain ⟨lines, sections, program, hlines, hsections, hmnemonics, hprogram, htest⟩ := exists_prepared htest
    have hsts : LaysOut program.symbols ramStart (sections.dataLines lines) _ :=
      eq_of_beq htest ▸ laysOut_huge program.symbols
    have hlength (n : Nat) : (emitted [⟨none, .space n 0⟩]).length = n := by simp [emitted, DataItem.emitted]
    have hroom : ramSize - ramStart = 2048 := by decide
    refine ⟨lines, hlines, ((layout_concatenates hsections hmnemonics hprogram).2 _ hsts).2.2 ?_⟩
    rw [hlength, hroom]
    decide

end Avr

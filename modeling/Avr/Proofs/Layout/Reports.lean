import Avr.CommandLine.Outcome
import Avr.Proofs.Layout.Headers
import Avr.Proofs.Layout.Image
import Avr.Proofs.Token.Points

/-!
# Where errors are reported

Each part of the assembler yields tokens at places that it was given, and reports at such places.

* `At`, `Placed` : reports and tokens at some of a set of places;
* `resolveArgs_yields`, `checkArgs_yields`, `DataState.add_yields`, `ProgramState.add_yields` : names, operands and
  lines;
* `Unplaced`, `layout_yields` : only missing headers are reported without a place;
* `assembleLines_yields` : reports behind the tokenizer are at tokens; `assemble_error_cases` : with those of the
  tokenizer;
* `assemble_error_placed` : every report of the assembler can quote its line.
-/

namespace Avr

variable {P : Loc → Prop}

/-- A report at one of some places. -/
def At (P : Loc → Prop) (d : Diagnostic) : Prop := ∃ loc, d.loc = some loc ∧ P loc

def Placed (P : Loc → Prop) (ts : List Token) : Prop := ∀ t ∈ ts, P t.loc

theorem yields_located {α : Type} {Q : α → Prop} {loc : Loc} (h : P loc) (cause : Cause) :
    Yields (At P) Q (.error (.located loc cause)) := ⟨loc, rfl, h⟩

theorem Token.yields_fail {α : Type} {Q : α → Prop} {t : Token} (h : P t.loc) (e : LayoutError) :
    Yields (At P) Q (t.fail e) := yields_located h _

/-! ## Names, selections and expressions -/

theorem resolveRef_yields (s : Symbols) (r : Reference) {t : Token} (h : P t.loc) :
    Yields (At P) (fun u => P u.loc) (resolveRef s r t) := by
  unfold resolveRef
  split
  · split
    · exact .ok h
    · exact yields_located h _
  · exact .ok h

theorem selectByte_yields {t : Token} (ht : P t.loc) (half : Half) {inner : List Token} (h : Placed P inner) :
    Yields (At P) (fun u => P u.loc) (selectByte t half inner) := by
  cases inner with
  | nil => exact yields_located ht _
  | cons first rest =>
    unfold selectByte
    dsimp only
    split
    · exact .ok ht
    · exact yields_located (h first List.mem_cons_self) _

/-- A selection without a group is reported at itself, and an expression in one where it starts. -/
theorem resolveSelects_yields {ts : List Token} (h : Placed P ts) : Yields (At P) (Placed P) (resolveSelects ts) := by
  induction hn : ts.length using Nat.strongRecOn generalizing ts with
  | ind n ih =>
    cases ts with
    | nil =>
      rw [resolveSelects]
      exact .ok h
    | cons t ts =>
      rw [List.length_cons] at hn
      obtain ⟨ht, hts⟩ := List.forall_mem_cons.1 h
      rw [resolveSelects]
      split
      · next half _ =>
        cases ts with
        | nil => exact yields_located ht _
        | cons u us =>
          rw [List.length_cons] at hn
          dsimp only
          split
          · split
            · exact yields_located ht _
            · next inner rest hgroup =>
              have hlength := length_closeGroup? hgroup
              obtain ⟨close, rfl⟩ := closeGroup?_eq_append hgroup
              have hinner : Placed P inner := fun v hv => hts v (by simp [hv])
              have hrest : Placed P rest := fun v hv => hts v (by simp [hv])
              refine (selectByte_yields ht half hinner).bind fun byte hbyte => ?_
              exact (ih rest.length (by omega) hrest rfl).bind fun vs hvs => .ok (List.forall_mem_cons.2 ⟨hbyte, hvs⟩)
          · exact yields_located ht _
      · exact (ih ts.length (by omega) hts rfl).bind fun vs hvs => .ok (List.forall_mem_cons.2 ⟨ht, hvs⟩)

theorem collapse_yields {t : Token} (h : P t.loc) (ts : List Token) :
    Yields (At P) (fun u => P u.loc) (Expr.collapse t ts) := by
  unfold Expr.collapse
  split
  · exact .ok h
  · split
    · exact .ok h
    · exact yields_located h _

/-- An expression is reported where its run starts, and so is its value. -/
theorem evaluate_yields {ts : List Token} (h : Placed P ts) : Yields (At P) (Placed P) (Expr.evaluate ts) := by
  induction ts using Expr.evaluate.induct with
  | case1 =>
    rw [Expr.evaluate]
    exact .ok h
  | case2 t ts ht ih =>
    obtain ⟨hloc, hts⟩ := List.forall_mem_cons.1 h
    have hrest : Placed P (ts.dropWhile Expr.inAlphabet) := fun u hu => hts u ((List.dropWhile_sublist _).subset hu)
    rw [Expr.evaluate, if_pos ht]
    refine (collapse_yields hloc _).bind fun v hv => ?_
    exact (ih hrest).bind fun vs hvs => .ok (List.forall_mem_cons.2 ⟨hv, hvs⟩)
  | case3 t ts ht ih =>
    obtain ⟨hloc, hts⟩ := List.forall_mem_cons.1 h
    rw [Expr.evaluate, if_neg ht]
    exact (ih hts).bind fun vs hvs => .ok (List.forall_mem_cons.2 ⟨hloc, hvs⟩)

theorem resolveArgs_yields (s : Symbols) (r : Reference) {ts : List Token} (h : Placed P ts) :
    Yields (At P) (Placed P) (resolveArgs s r ts) := by
  have hrefs : Yields (At P) (Placed P) (resolveRefs s r ts) := .mapM fun t ht => resolveRef_yields s r (h t ht)
  exact hrefs.bind fun us hus => (resolveSelects_yields hus).bind fun vs hvs => evaluate_yields hvs

/-! ## Argument lists -/

theorem splitArgs_yields (ts : List Token) : Yields (· ∈ ts) (· ⊆ ts) (splitArgs ts) := by
  cases hsplit : splitArgs ts with
  | error t => exact .error (splitArgs_eq_error_iff.1 hsplit).mem
  | ok vs => exact .ok (splitArgs_eq_ok.1 hsplit).sublist.subset

theorem checkArgs_yields (m : Mnemonic) {loc : Loc} (hloc : P loc) {args : List Token} (h : Placed P args) :
    Yields (At P) (fun _ => True) (checkArgs m loc args) := by
  have hsplit := splitArgs_yields args
  unfold checkArgs
  cases hargs : splitArgs args with
  | error t =>
    rw [hargs] at hsplit
    exact yields_located (h t hsplit) _
  | ok values =>
    rw [hargs] at hsplit
    replace hsplit : values ⊆ args := hsplit
    dsimp only
    split
    · refine yields_located ?_ _
      cases hmore : values[m.entry.arity]? with
      | none => exact hloc
      | some t => exact h t (hsplit (List.mem_of_getElem? hmore))
    · refine (Yields.mapM (R := fun _ => True) fun ((spec, t), place) hmem => ?_).any
      have ht : t ∈ values := (List.of_mem_zip (List.fst_mem_of_mem_zipIdx hmem)).2
      dsimp only
      split
      · exact .ok trivial
      · exact yields_located (h t (hsplit ht)) _

/-! ## Data -/

theorem values_yields (symbols : Symbols) (dir : Directive) {head : Token} (hhead : P head.loc) {args : List Token}
    (h : Placed P args) : Yields (At P) (Placed P) (values symbols dir head args) := by
  refine (resolveArgs_yields symbols .value h).bind fun us hus => ?_
  have hsplit := splitArgs_yields us
  generalize splitArgs us = r at hsplit
  cases r with
  | error t => exact t.yields_fail (hus t hsplit) _
  | ok vs =>
    cases vs with
    | nil => exact head.yields_fail hhead _
    | cons v vs => exact .ok fun u hu => hus u (hsplit hu)

theorem integer_yields {t : Token} (h : P t.loc) : Yields (At P) (fun _ => True) (integer t) := by
  unfold integer
  split
  · exact .ok trivial
  · exact t.yields_fail h _

theorem integers_yields (symbols : Symbols) (dir : Directive) {head : Token} (hhead : P head.loc) {args : List Token}
    (h : Placed P args) :
    Yields (At P) (fun ints => ∀ p ∈ ints, P p.1) (integers symbols dir head args) := by
  refine (values_yields symbols dir hhead h).bind fun vs hvs => .mapM fun t ht => ?_
  exact (integer_yields (hvs t ht)).bind fun v _ => .ok (hvs t ht)

theorem bindLabel_yields {tokens : List Token} (h : Placed P tokens) (symbols : Symbols) (index : Nat) :
    Yields (At P) (fun r => Placed P r.1) (bindLabel tokens symbols index) := by
  unfold bindLabel
  split
  · obtain ⟨hlabel, hrest⟩ := List.forall_mem_cons.1 h
    split
    · exact .ok hrest
    · exact yields_located hlabel _
  · exact .ok h

namespace DataState

variable (s : DataState)

theorem push_yields {loc : Loc} (h : P loc) (bytes : List Byte) :
    Yields (At P) (fun _ => True) (s.push loc bytes) := by
  unfold push
  split
  · exact yields_located h _
  · exact .ok trivial

theorem reserve_yields {loc : Loc} (h : P loc) (count : Nat) (fill : Byte) :
    Yields (At P) (fun _ => True) (s.reserve loc count fill) := by
  unfold reserve
  split
  · exact yields_located h _
  · exact .ok trivial

theorem pushText_yields (ended : Bool) {t : Token} (h : P t.loc) :
    Yields (At P) (fun _ => True) (s.pushText ended t) := by
  unfold pushText
  split
  · split
    · exact s.push_yields h _
    · exact t.yields_fail h _
  · exact t.yields_fail h _

theorem space_yields {head : Token} (hhead : P head.loc) {ints : List (Loc × Int)} (h : ∀ p ∈ ints, P p.1) :
    Yields (At P) (fun _ => True) (s.space head ints) := by
  have hfill {loc : Loc} (hloc : P loc) (count value : Int) : Yields (At P) (fun _ => True)
      (if count < 0 then .error (.located loc (.layout (.negativeCount count)))
        else s.reserve loc count.toNat (BitVec.ofInt 8 value)) := by
    split
    · exact yields_located hloc _
    · exact s.reserve_yields hloc _ _
  unfold space
  dsimp only
  split
  · exact head.yields_fail hhead _
  · exact hfill (h _ List.mem_cons_self) _ _
  · exact hfill (h _ List.mem_cons_self) _ _
  · next loc value _ => exact yields_located (h (loc, value) (by simp)) _

theorem define_yields {name : Token} (h : P name.loc) (b : Binding) :
    Yields (At P) (fun _ => True) (s.define name b) := by
  unfold define
  split
  · exact .ok trivial
  · exact name.yields_fail h _

theorem constant_yields (dir : Directive) {head : Token} (hhead : P head.loc) {args : List Token}
    (h : Placed P args) : Yields (At P) (fun _ => True) (s.constant dir head args) := by
  unfold constant
  split
  · next name _ _ value more =>
    have hname : P name.loc := h name (by simp)
    have hvalue : Placed P (value :: more) := fun t ht => h t (by simp at ht ⊢; tauto)
    have hvalues := resolveArgs_yields s.symbols .value hvalue
    refine .check (name.yields_fail hname _) (hvalues.bind fun vs hvs => ?_)
    match vs, hvs with
    | [], _ => exact head.yields_fail hhead _
    | [t], hvs => exact (integer_yields (hvs t List.mem_cons_self)).bind fun v _ => s.define_yields hname _
    | _ :: extra :: _, hvs => exact extra.yields_fail (hvs extra (by simp)) _
  · next t _ _ => exact t.yields_fail (h t List.mem_cons_self) _
  · exact head.yields_fail hhead _

theorem register_yields {t : Token} (h : P t.loc) : Yields (At P) (fun _ => True) (s.register t) := by
  unfold register
  split
  · exact .ok trivial
  · split
    · exact .ok trivial
    · exact t.yields_fail h _
  · exact t.yields_fail h _

theorem registerAlias_yields {head : Token} (hhead : P head.loc) {args : List Token} (h : Placed P args) :
    Yields (At P) (fun _ => True) (s.registerAlias head args) := by
  unfold registerAlias
  split
  · exact head.yields_fail hhead _
  · next first rest =>
    have hfirst : P first.loc := h first List.mem_cons_self
    split
    · next name separator reg hargs =>
      rw [hargs] at h
      have hname : P name.loc := h name (by simp)
      have hreg : P reg.loc := h reg (by simp)
      split
      · refine .check (name.yields_fail hname _) ?_
        exact (s.register_yields hreg).bind fun n _ => s.define_yields hname _
      · exact first.yields_fail hfirst _
    · exact first.yields_fail hfirst _

theorem directive_yields (dir : Directive) {head : Token} (hhead : P head.loc) {args : List Token}
    (h : Placed P args) : Yields (At P) (fun _ => True) (s.directive dir head args) := by
  have hints := integers_yields s.symbols dir hhead h
  have hvalues := values_yields s.symbols dir hhead h
  unfold directive
  cases dir with
  | byte | word =>
    exact hints.bind fun ints hints => .foldlM trivial fun s p hp _ => s.push_yields (hints p hp) _
  | string | asciz | ascii =>
    exact hvalues.bind fun vs hvs => .foldlM trivial fun s t ht _ => s.pushText_yields _ (hvs t ht)
  | space => exact hints.bind fun ints hints => s.space_yields hhead hints
  | equ | assign => exact s.constant_yields _ hhead h
  | registerAlias => exact s.registerAlias_yields hhead h
  | header | finish | text | data | global => exact head.yields_fail hhead _

theorem add_yields {line : Line} (h : Placed P line.tokens) : Yields (At P) (fun _ => True) (s.add line) := by
  refine (bindLabel_yields h s.symbols s.bytes.size).bind fun (tokens, symbols) htokens => ?_
  cases tokens with
  | nil => exact .ok trivial
  | cons head args =>
    obtain ⟨hhead, hargs⟩ := List.forall_mem_cons.1 htokens
    dsimp only
    split
    · exact directive_yields _ _ hhead hargs
    · exact head.yields_fail hhead _

end DataState

theorem layoutData_yields {lines : List Line} (h : ∀ line ∈ lines, Placed P line.tokens) (symbols : Symbols) :
    Yields (At P) (fun _ => True) (layoutData lines symbols) :=
  .foldlM trivial fun s line hline _ => s.add_yields (h line hline)

/-! ## Instructions -/

structure Statement.PlacedAt (P : Loc → Prop) (st : Statement) : Prop where
  loc : P st.loc
  args : Placed P st.args

structure ProgramState.PlacedAt (P : Loc → Prop) (s : ProgramState) : Prop where
  slots : ∀ st, some st ∈ s.slots → st.PlacedAt P
  globals : ∀ g ∈ s.globals, P g.2

theorem globalName?_placed {tokens : List Token} (h : Placed P tokens) {entry : String × Loc}
    (hentry : globalName? tokens = some entry) : P entry.2 := by
  unfold globalName? at hentry
  split at hentry
  · split at hentry
    · cases hentry
      exact h ⟨_, _, _⟩ (List.mem_cons_of_mem _ List.mem_cons_self)
    · cases hentry
  · cases hentry

namespace ProgramState

variable {s : ProgramState}

theorem placedAt_push {slots : Array (Option Statement)} (h : ∀ st, some st ∈ slots → st.PlacedAt P) {st : Statement}
    (hst : st.PlacedAt P) : ∀ st', some st' ∈ push slots st → st'.PlacedAt P := by
  intro st' hmem
  have hcases : some st' ∈ slots ∨ st' = st := by
    unfold push at hmem
    split at hmem <;> simpa using hmem
  obtain hold | rfl := hcases
  · exact h st' hold
  · exact hst

theorem addStatement_yields (hs : s.PlacedAt P) (wanted : Option Nat) {st : Statement} (h : st.PlacedAt P) :
    Yields (At P) (ProgramState.PlacedAt P) (s.addStatement wanted st) := by
  unfold addStatement
  dsimp only
  split
  · exact yields_located h.loc _
  · exact .ok ⟨placedAt_push hs.slots h, hs.globals⟩

theorem addTokens_yields (hs : s.PlacedAt P) (wanted : Option Nat) (line : Nat) {tokens : List Token}
    (h : Placed P tokens) : Yields (At P) (ProgramState.PlacedAt P) (s.addTokens wanted line tokens) := by
  unfold addTokens
  split
  · exact .ok hs
  · next head args =>
    obtain ⟨hhead, hargs⟩ := List.forall_mem_cons.1 h
    dsimp only
    split
    · split
      · exact yields_located hhead _
      · next name loc hentry =>
        split
        · refine .ok ⟨hs.slots, fun g hg => ?_⟩
          obtain hg | hg := List.mem_append.1 hg
          · exact hs.globals g hg
          · rw [List.mem_singleton.1 hg]
            exact globalName?_placed h hentry
        · exact yields_located hhead _
    · split
      · exact addStatement_yields hs wanted ⟨hhead, hargs⟩
      · exact yields_located hhead _
    · exact yields_located hhead _

theorem add_yields (hs : s.PlacedAt P) (wanted : Option Nat) {line : Line} (h : Placed P line.tokens) :
    Yields (At P) (ProgramState.PlacedAt P) (s.add wanted line) := by
  refine (bindLabel_yields h s.symbols s.slots.size).bind fun (tokens, symbols) htokens => ?_
  have hbound : ({ s with symbols := symbols } : ProgramState).PlacedAt P := ⟨hs.slots, hs.globals⟩
  exact addTokens_yields hbound wanted line.number htokens

end ProgramState

theorem resolve_yields (symbols : Symbols) (index : Nat) {st : Statement} (h : st.PlacedAt P) :
    Yields (At P) (Statement.PlacedAt P) (st.resolve symbols index) :=
  (resolveArgs_yields symbols _ h.args).bind fun _ hargs => .ok ⟨h.loc, hargs⟩

theorem instruction_yields {st : Statement} (h : st.PlacedAt P) :
    Yields (At P) (fun _ => True) st.instruction := by
  refine (checkArgs_yields st.mnemonic h.loc h.args).bind fun operands _ => ?_
  split
  · exact .ok trivial
  · exact yields_located h.loc _

/-! ## Lines and sections -/

/-- Lines that begin with a token at one of the places, as all of their tokens are. -/
structure Line.PlacedAt (P : Loc → Prop) (line : Line) : Prop where
  tokens : Placed P line.tokens
  nonempty : line.tokens ≠ []

theorem Line.PlacedAt.firstLoc {line : Line} (h : line.PlacedAt P) : P line.firstLoc := by
  obtain ⟨t, ts, htokens⟩ := List.exists_cons_of_ne_nil h.nonempty
  unfold Line.firstLoc
  rw [htokens]
  exact h.tokens t (htokens ▸ List.mem_cons_self)

theorem note_yields {line : Line} (h : line.PlacedAt P) (headers : Headers) (place : Nat) :
    Yields (At P) (fun _ => True) (headers.note line place) := by
  have hfail (e : LayoutError) : Yields (At P) (fun _ => True)
      (.error (.located line.firstLoc (.layout e)) : Except Diagnostic Headers) := yields_located h.firstLoc _
  unfold Headers.note
  dsimp only
  split
  · exact .ok trivial
  · split
    · split
      · exact hfail _
      · exact .ok trivial
    · split
      · split
        · exact hfail _
        · exact .ok trivial
      · exact hfail _

/-- A report without a place: there are no lines, or no text section. -/
def Unplaced (lines : List Line) (d : Diagnostic) : Prop :=
  d.loc = none ∧ (lines = [] ∧ d.cause = .layout .missingSectionHeader ∨ d.cause = .layout .missingTextSection)

theorem dataLines_subset (s : Sections) (lines : List Line) : s.dataLines lines ⊆ lines := by
  unfold Sections.dataLines
  split
  · exact fun line hline => List.mem_of_mem_take (List.mem_of_mem_drop hline)
  · exact List.nil_subset lines

section Lines

variable {lines : List Line} (h : ∀ line ∈ lines, line.PlacedAt P)
include h

theorem headers_yields : Yields (At P) (fun headers => headers.Of lines)
    (lines.zipIdx.foldlM (fun (h : Headers) (line, place) => h.note line place) {}) := by
  refine Yields.of_ok (.foldlM trivial fun headers (line, place) hmem _ => ?_) fun headers hrun => ?_
  · exact note_yields (h line (List.fst_mem_of_mem_zipIdx hmem)) headers place
  · exact foldlM_note_ok [] ⟨fun k => by simp [headerAt_nil], fun k => by simp [headerAt_nil]⟩ hrun

theorem checkSections_yields : Yields (fun d => At P d ∨ Unplaced lines d) (fun s => ∃ line, lines[s.text]? = some line)
    (checkSections lines) := by
  have hfail {α : Type} {Q : α → Prop} {line : Line} (hline : line ∈ lines) (e : LayoutError) :
      Yields (fun d => At P d ∨ Unplaced lines d) Q (.error (.located line.firstLoc (.layout e))) :=
    .error (.inl ⟨_, rfl, (h line hline).firstLoc⟩)
  unfold checkSections
  dsimp only
  split
  · next first last hfirst hlast =>
    split
    · exact hfail (List.mem_of_mem_head? hfirst) _
    · split
      · exact hfail (List.mem_of_getLast? hlast) _
      · refine ((headers_yields h).imp fun d hd => .inl hd).bind fun headers hof => ?_
        split
        · exact .error (.inr ⟨rfl, .inr rfl⟩)
        · next text htext =>
          obtain ⟨line, hline, -⟩ := (hof.text text).1 htext
          split
          · next data hdata =>
            obtain ⟨hnoted, -⟩ := Option.filter_eq_some_iff.1 hdata
            obtain ⟨line, hline, -⟩ := (hof.data data).1 hnoted
            rw [hline]
            exact hfail (List.mem_of_getElem? hline) _
          · exact .ok ⟨line, hline⟩
  · next hnone =>
    refine .error (.inr ⟨rfl, .inl ⟨?_, rfl⟩⟩)
    cases lines with
    | nil => rfl
    | cons line rest => exact absurd (List.getLast?_eq_some_getLast (List.cons_ne_nil line rest)) (hnone line _ rfl)

theorem checkMnemonics_yields : Yields (At P) (fun _ => True) (checkMnemonics lines) := by
  unfold checkMnemonics
  split
  · next t ht =>
    obtain ⟨line, hline, hmem⟩ := List.mem_flatMap.1 (List.mem_of_find?_eq_some ht)
    exact yields_located ((h line hline).tokens t hmem) _
  · exact .ok trivial

theorem layoutProgram_yields {sections : Sections} {header : Line} (hheader : lines[sections.text]? = some header)
    (symbols : Symbols) (wanted : Option Nat) :
    Yields (At P) (ProgramState.PlacedAt P) (layoutProgram sections lines symbols wanted) := by
  unfold layoutProgram
  dsimp only
  split
  · cases hsecond : lines[sections.text + 1]? with
    | none =>
      rw [hheader]
      exact .error ⟨_, rfl, (h header (List.mem_of_getElem? hheader)).firstLoc⟩
    | some second => exact .error ⟨_, rfl, (h second (List.mem_of_getElem? hsecond)).firstLoc⟩
  · next entry hentry =>
    obtain ⟨second, hsecond, hname⟩ := Option.bind_eq_some_iff.1 hentry
    have hplace : P entry.2 := globalName?_placed (h second (List.mem_of_getElem? hsecond)).tokens hname
    have hstart : ({ symbols := symbols, globals := [entry] } : ProgramState).PlacedAt P :=
      ⟨fun st hst => by simp at hst, fun g hg => by rw [List.mem_singleton.1 hg]; exact hplace⟩
    have hlines : Yields (At P) (ProgramState.PlacedAt P) ((sections.textLines lines).foldlM (ProgramState.add wanted)
        { symbols := symbols, globals := [entry] }) :=
      .foldlM hstart fun s line hline hs =>
        s.add_yields hs wanted (h line ((List.dropLast_sublist lines).subset (List.mem_of_mem_drop hline))).tokens
    refine hlines.bind fun s hs => ?_
    split
    · next name loc hfind => exact yields_located (hs.globals (name, loc) (List.mem_of_find?_eq_some hfind)) _
    · exact .ok hs

def Layout.PlacedAt (P : Loc → Prop) (l : Layout) : Prop := ∀ st, some st ∈ l.slots → st.PlacedAt P

theorem layout_yields (wanted : Option Nat) :
    Yields (fun d => At P d ∨ Unplaced lines d) (Layout.PlacedAt P) (layout lines wanted) := by
  refine (checkSections_yields h).bind fun sections hsections => ?_
  obtain ⟨header, hheader⟩ := hsections
  refine Yields.bind ((checkMnemonics_yields h).imp fun d hd => .inl hd) fun _ _ => ?_
  refine Yields.bind ((layoutProgram_yields h hheader _ wanted).imp fun d hd => .inl hd) fun program hprogram => ?_
  have hdata : ∀ line ∈ sections.dataLines lines, Placed P line.tokens :=
    fun line hline => (h line (dataLines_subset sections lines hline)).tokens
  exact Yields.bind ((layoutData_yields hdata _).imp fun d hd => .inl hd) fun data _ => .ok hprogram.slots

end Lines

theorem Layout.resolve_yields {l : Layout} (h : l.PlacedAt P) : Yields (At P) (Layout.PlacedAt P) l.resolve := by
  unfold Layout.resolve
  refine Yields.bind (.mapM (R := fun slot => ∀ st, slot = some st → st.PlacedAt P) fun p hmem => ?_)
    fun slots hslots => .ok fun st hst => hslots (some st) (List.mem_toArray.1 hst) st rfl
  obtain ⟨slot, index⟩ := p
  cases slot with
  | none =>
    refine .ok fun st hst => ?_
    cases hst
  | some st =>
    have hst := h st (Array.mem_toList_iff.1 (List.fst_mem_of_mem_zipIdx hmem))
    refine (Avr.resolve_yields l.symbols index hst).map fun st' hst' st'' heq => ?_
    cases heq
    exact hst'

theorem Layout.image_yields {l : Layout} (h : l.PlacedAt P) : Yields (At P) (fun _ => True) l.image := by
  refine Yields.bind (.mapM (R := fun _ => True) fun slot hslot => ?_) fun _ _ => .ok trivial
  cases slot with
  | none => exact .ok trivial
  | some st => exact (instruction_yields (h st (Array.mem_toList_iff.1 hslot))).bind fun _ _ => .ok trivial

/-! ## Assemblies -/

/-- The place of a token among lines. -/
def TokenAt (lines : List Line) (loc : Loc) : Prop :=
  ∃ line ∈ lines, line.number = loc.line ∧ ∃ t ∈ line.tokens, t.loc = loc

/-- What is reported behind the tokenizer is at a token, or has no place. -/
theorem assembleLines_yields {source : String} {lines : List Line} (h : tokenize source = .ok lines)
    (wanted : Option Nat) :
    Yields (fun d => At (TokenAt lines) d ∨ Unplaced lines d) (fun _ => True)
      (do (← (← layout lines wanted).resolve).image) := by
  have hplaced : ∀ line ∈ lines, line.PlacedAt (TokenAt lines) := fun line hline =>
    ⟨fun t ht => ⟨line, hline, (points_of_mem h hline ht).1, t, ht, rfl⟩, ((tokenizeLine_of_tokenize h).2 line hline).1⟩
  refine (layout_yields hplaced wanted).bind fun l hl => ?_
  refine Yields.imp (D := At (TokenAt lines)) ?_ fun d hd => .inl hd
  exact (Layout.resolve_yields hl).bind fun l' hl' => Layout.image_yields hl'

/-- A report with a place quotes the line at it. -/
theorem report_eq {source : String} {d : Diagnostic} {loc : Loc} {cs : List Char} (hloc : d.loc = some loc)
    (hcs : loc.Points source cs) (path : String) : CommandLine.report path source d =
      path ++ " " ++ loc.text ++ ":\n    " ++ String.ofList (Text.trim cs) ++ ": " ++ d.message := by
  unfold CommandLine.report
  rw [hloc]
  simp only [Option.bind_some, hcs.text, Option.map_some]

/-- The tokenizer reports at a place in the source, and the rest of the assembler at a token or without a place. -/
theorem assemble_error_cases {source : String} {wanted : Option Nat} {d : Diagnostic}
    (h : assemble source wanted = .error d) :
    (∃ loc cs, d.loc = some loc ∧ loc.Points source cs ∧
      (tokenize source = .error d ∧ (∃ e, d.cause = .lexical e) ∨
        ∃ lines, tokenize source = .ok lines ∧ TokenAt lines loc)) ∨
      ∃ lines, tokenize source = .ok lines ∧ Unplaced lines d := by
  have htokenizer := tokenize_yields source
  unfold assemble at h
  cases hlines : tokenize source with
  | error d' =>
    rw [hlines] at h htokenizer
    obtain rfl : d' = d := Except.error.inj h
    obtain ⟨hlexical, loc, cs, hloc, hcs⟩ := htokenizer
    exact .inl ⟨loc, cs, hloc, hcs, .inl ⟨rfl, hlexical⟩⟩
  | ok lines =>
    have hrest := assembleLines_yields hlines wanted
    have hfails : (do (← (← layout lines wanted).resolve).image) = Except.error d := by
      rw [hlines] at h
      exact h
    rw [hfails] at hrest
    obtain ⟨loc, hloc, line, hline, hnumber, t, ht, rfl⟩ | hunplaced := hrest
    · obtain ⟨-, cs, hcs⟩ := points_of_mem hlines hline ht
      exact .inl ⟨t.loc, cs, hloc, hcs, .inr ⟨lines, rfl, line, hline, hnumber, t, ht, rfl⟩⟩
    · exact .inr ⟨lines, rfl, hunplaced⟩

/-- An error of the assembler has no place only if there are no tokens or no text section. Otherwise its place is in the
source, at a column of one of its lines; it is that of a token of this line, unless the tokenizer has found the error;
and the line is quoted in the report. -/
theorem assemble_error_placed {source : String} {wanted : Option Nat} {d : Diagnostic}
    (h : assemble source wanted = .error d) :
    (d.loc = none → tokenize source = .ok [] ∧ d.cause = .layout .missingSectionHeader ∨
      d.cause = .layout .missingTextSection) ∧
    ∀ loc, d.loc = some loc → ∃ cs, loc.Points source cs ∧
      (tokenize source = .error d ∧ (∃ e, d.cause = .lexical e) ∨
        ∃ lines, tokenize source = .ok lines ∧ TokenAt lines loc) ∧
      ∀ path, CommandLine.report path source d =
        path ++ " " ++ loc.text ++ ":\n    " ++ String.ofList (Text.trim cs) ++ ": " ++ d.message := by
  obtain ⟨loc, cs, hloc, hcs, hwhere⟩ | ⟨lines, hlines, hnone, hcause⟩ := assemble_error_cases h
  · refine ⟨fun hnone => ?_, fun loc' hloc' => ?_⟩
    · rw [hloc] at hnone
      cases hnone
    · obtain rfl : loc = loc' := Option.some.inj (hloc.symm.trans hloc')
      exact ⟨cs, hcs, hwhere, report_eq hloc hcs⟩
  · refine ⟨fun _ => ?_, fun loc hloc => ?_⟩
    · obtain ⟨rfl, hcause⟩ | hcause := hcause
      · exact .inl ⟨hlines, hcause⟩
      · exact .inr hcause
    · rw [hnone] at hloc
      cases hloc

/-- A program with a name inside the selection of a byte that is defined nowhere. -/
def nowhereSource : String := ".section .text\n.global main\nmain: LDI R16, lo8(1 + nowhere)\n.end"

def nowhereReport : Diagnostic := .located ⟨3, 24⟩ (.resolve (.undefinedSymbol "nowhere"))

theorem assemble_error_placed_nowhere :
    assemble nowhereSource none = .error nowhereReport ∧
      (⟨3, 24⟩ : Loc).Points nowhereSource "main: LDI R16, lo8(1 + nowhere)".toList ∧
      (∃ lines, tokenize nowhereSource = .ok lines ∧ TokenAt lines ⟨3, 24⟩) ∧
      CommandLine.report "a.s" nowhereSource nowhereReport =
        "a.s (line: 3, col: 24):\n    main: LDI R16, lo8(1 + nowhere): Assembly Error (in Resolver): " ++
          "@(line: 3, col: 24): Undefined symbol 'nowhere'" := by
  have hfails : (assemble nowhereSource none).map (fun _ => ()) = .error nowhereReport := by decide +kernel
  have herror : assemble nowhereSource none = .error nowhereReport := by
    cases hassemble : assemble nowhereSource none with
    | ok image =>
      rw [hassemble] at hfails
      cases hfails
    | error d =>
      rw [hassemble] at hfails
      rw [Except.error.inj hfails]
  obtain ⟨-, hplaced⟩ := assemble_error_placed herror
  obtain ⟨cs, hcs, hwhere, hreport⟩ := hplaced ⟨3, 24⟩ rfl
  have htext : (Text.lines nowhereSource.toList)[2]? = some "main: LDI R16, lo8(1 + nowhere)".toList := by
    decide +kernel
  obtain rfl := Option.some.inj (hcs.text.symm.trans htext)
  refine ⟨herror, hcs, ?_, (hreport "a.s").trans ?_⟩
  · obtain ⟨-, e, he⟩ | htoken := hwhere
    · cases he
    · exact htoken
  · decide +kernel

end Avr

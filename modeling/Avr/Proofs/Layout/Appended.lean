import Avr.Proofs.Layout.Source

/-!
# A statement more

* `layoutProgram_eq_ok_iff` : when the program pass gives a result;
* `checkSections_append` : a line in front of the last one leaves the sections where they are;
* `ProgramState.add_statement` : what the line of a statement of one word adds;
* `layout_append` : a layout with such a line in front of the last one has one slot more, and is the same otherwise.
-/

namespace Avr

/-! ## Structure -/

theorem exists_of_isLoneDir {line : Line} {d : Directive} (h : line.isLoneDir d = true) :
    ∃ t, line.tokens = [t] ∧ t.lexeme = .dir d := by
  unfold Line.isLoneDir at h
  split at h
  · next t htokens => exact ⟨t, htokens, eq_of_beq h⟩
  · cases h

theorem plain_of_isLoneDir {line : Line} (h : line.isLoneDir .finish = true) : line.Plain := by
  obtain ⟨t, htokens, ht⟩ := exists_of_isLoneDir h
  rw [Line.Plain, htokens, List.head?_cons, Option.any_some, Token.isDir, ht]
  rfl

theorem isHeader_of_isLoneDir {line : Line} {d : Directive} (h : line.isLoneDir d = true) (e : Directive) :
    line.isHeader e = false := by
  obtain ⟨t, htokens, -⟩ := exists_of_isLoneDir h
  rw [Line.isHeader, htokens]

theorem globalName?_of_isLoneDir {line : Line} {d : Directive} (h : line.isLoneDir d = true) :
    globalName? line.tokens = none := by
  obtain ⟨t, htokens, -⟩ := exists_of_isLoneDir h
  rw [htokens]
  rfl

/-- A program has lines in front of its last one, which is `.end`. -/
theorem checkSections_concat {lines : List Line} {s : Sections} (h : checkSections lines = .ok s) :
    ∃ front last, lines = front ++ [last] ∧ front ≠ [] ∧ last.isLoneDir .finish = true := by
  obtain ⟨first, last, headers, hfirst, hlast, hheader, hlone, -⟩ := checkSections_eq_ok_iff.1 h
  obtain ⟨front, rfl⟩ := List.getLast?_eq_some_iff.1 hlast
  refine ⟨front, last, rfl, ?_, hlone⟩
  rintro rfl
  obtain rfl := Option.some.inj hfirst
  rw [isHeader_of_isLoneDir hlone, isHeader_of_isLoneDir hlone] at hheader
  cases hheader

theorem entry_lt_of_checkSections {front : List Line} {last second : Line} {s : Sections} {entry : String × Loc}
    (h : checkSections (front ++ [last]) = .ok s) (hsecond : (front ++ [last])[s.text + 1]? = some second)
    (hentry : globalName? second.tokens = some entry) : s.text + 1 < front.length := by
  have hlt := (List.getElem?_eq_some_iff.1 hsecond).1
  rw [List.length_append, List.length_singleton] at hlt
  rcases Nat.lt_or_eq_of_le (Nat.le_of_lt_succ hlt) with hlt | heq
  · exact hlt
  · rw [heq, List.getElem?_concat_length, Option.some.injEq] at hsecond
    obtain ⟨front', last', heq, -, hlone⟩ := checkSections_concat h
    obtain ⟨rfl, rfl⟩ := List.append_singleton_inj.1 heq
    rw [← hsecond, globalName?_of_isLoneDir hlone] at hentry
    cases hentry

/-- A line in front of the last one leaves the sections where they are. -/
theorem checkSections_append {front : List Line} {last line last' : Line} {s : Sections} (hline : line.Plain)
    (hlast' : last'.isLoneDir .finish = true) (h : checkSections (front ++ [last]) = .ok s) :
    checkSections (front ++ [line, last']) = .ok s := by
  obtain ⟨front', last₀, heq, hne, hlone⟩ := checkSections_concat h
  obtain ⟨rfl, rfl⟩ := List.append_singleton_inj.1 heq
  obtain ⟨first, end_, headers, hfirst, -, hheader, -, hheaders, hrest⟩ := checkSections_eq_ok_iff.1 h
  refine checkSections_eq_ok_iff.2 ⟨first, last', headers, ?_, ?_, hheader, hlast', ?_, hrest⟩
  · rw [List.head?_append_of_ne_nil _ hne] at hfirst ⊢
    exact hfirst
  · rw [List.getLast?_append]
    rfl
  · rw [List.zipIdx_append, List.foldlM_append] at hheaders ⊢
    obtain ⟨noted, hnoted, hheaders⟩ := bind_eq_ok.1 hheaders
    rw [foldlM_note_plain (by simpa using plain_of_isLoneDir hlone)] at hheaders
    cases hheaders
    exact bind_eq_ok.2 ⟨headers, hnoted, foldlM_note_plain (by simp [hline, plain_of_isLoneDir hlast']) _ _⟩

theorem isUnknownMnemonic_name {t : Token} {m : Mnemonic} (ht : t.lexeme = .inst m.name) :
    t.isUnknownMnemonic = false := by
  rw [Token.isUnknownMnemonic, ht]
  dsimp only
  rw [(name_classes m).2.2.2.2]
  rfl

theorem checkMnemonics_eq_ok_iff {lines : List Line} :
    checkMnemonics lines = .ok () ↔ ∀ line ∈ lines, ∀ t ∈ line.tokens, t.isUnknownMnemonic = false := by
  have hnone : (lines.flatMap Line.tokens).find? Token.isUnknownMnemonic = none ↔
      ∀ line ∈ lines, ∀ t ∈ line.tokens, t.isUnknownMnemonic = false := by
    rw [List.find?_eq_none, List.forall_mem_flatMap]
    simp only [Bool.not_eq_true]
  rw [← hnone]
  unfold checkMnemonics
  split
  · next heq => simp [heq]
  · next heq => simp [heq]

theorem checkMnemonics_append {front : List Line} {last line last' : Line}
    (hline : ∀ t ∈ line.tokens, t.isUnknownMnemonic = false) (hlast' : last'.isLoneDir .finish = true)
    (h : checkMnemonics (front ++ [last]) = .ok ()) : checkMnemonics (front ++ [line, last']) = .ok () := by
  have hend : ∀ t ∈ last'.tokens, t.isUnknownMnemonic = false := by
    obtain ⟨t, htokens, ht⟩ := exists_of_isLoneDir hlast'
    rw [htokens, List.forall_mem_singleton, Token.isUnknownMnemonic, ht]
  rw [checkMnemonics_eq_ok_iff, List.forall_mem_append] at h ⊢
  exact ⟨h.1, by simpa using ⟨hline, hend⟩⟩

/-! ## Program memory -/

theorem layoutProgram_eq_ok_iff {sections : Sections} {lines : List Line} {symbols : Symbols} {wanted : Option Nat}
    {s : ProgramState} :
    layoutProgram sections lines symbols wanted = .ok s ↔ ∃ line entry, lines[sections.text + 1]? = some line ∧
      globalName? line.tokens = some entry ∧
      (sections.textLines lines).foldlM (ProgramState.add wanted) { symbols := symbols, globals := [entry] } = .ok s ∧
      (s.globals.find? fun (name, _) => (s.symbols.label? name).isNone) = none := by
  unfold layoutProgram
  dsimp only
  constructor
  · intro h
    split at h
    · cases h
    · next entry hentry =>
      obtain ⟨line, hline, hentry⟩ := Option.bind_eq_some_iff.1 hentry
      obtain ⟨s', hs', h⟩ := bind_eq_ok.1 h
      split at h
      · cases h
      · next hnone =>
        cases h
        exact ⟨line, entry, hline, hentry, hs', hnone⟩
  · rintro ⟨line, entry, hline, hentry, hs, hnone⟩
    rw [hline, Option.bind_some, hentry]
    refine bind_eq_ok.2 ⟨s, hs, ?_⟩
    rw [hnone]
    rfl

/-- The line of a statement of one word adds its slot, where flash has room for it. -/
theorem ProgramState.add_statement {head : Token} {m : Mnemonic} (hhead : head.lexeme = .inst m.name)
    (hsingle : m.entry.isDoubleWord = false) (args : List Token) (n : Nat) (wanted : Option Nat) {s : ProgramState}
    (hroom : s.slots.size < flashSize) :
    ProgramState.add wanted s ⟨n, head :: args⟩ = .ok { s with
      slots := s.slots.push (some ⟨m, head.loc, args, n⟩)
      breakpoint := s.breakpointAt wanted n } := by
  have hbind := bindLabel_of_ne (t := head) (by rw [hhead]; exact fun _ => nofun) args s.symbols s.slots.size
  have hpush : push s.slots ⟨m, head.loc, args, n⟩ = s.slots.push (some ⟨m, head.loc, args, n⟩) := by
    rw [push, hsingle, if_neg Bool.false_ne_true]
  refine bind_eq_ok.2 ⟨_, hbind, ?_⟩
  unfold addTokens
  dsimp only
  rw [hhead]
  dsimp only
  rw [(name_classes m).2.2.2.2]
  dsimp only
  unfold addStatement
  rw [hpush]
  exact if_neg (by rw [Array.size_push]; omega)

/-! ## Both memories -/

/-- The line of a statement of one word in front of the last line adds its slot and changes nothing else but the
breakpoint. -/
theorem layout_append {front : List Line} {last last' : Line} {n : Nat} {head : Token} {args : List Token}
    {m : Mnemonic} (hhead : head.lexeme = .inst m.name) (hsingle : m.entry.isDoubleWord = false)
    (hargs : ∀ t ∈ args, t.isUnknownMnemonic = false) (hlast' : last'.isLoneDir .finish = true)
    {wanted : Option Nat} {l : Layout} (h : layout (front ++ [last]) wanted = .ok l) (hroom : l.slots.size < flashSize) :
    ∃ l', layout (front ++ [⟨n, head :: args⟩, last']) wanted = .ok l' ∧
      l'.slots = l.slots.push (some ⟨m, head.loc, args, n⟩) ∧ l'.bytes = l.bytes ∧ l'.symbols = l.symbols := by
  obtain ⟨s, program, data, hsections, hmnemonics, hprogram, hdata, rfl⟩ := layout_ok h
  obtain ⟨second, entry, hsecond, hentry, hfold, hglobals⟩ := layoutProgram_eq_ok_iff.1 hprogram
  have hplain : (⟨n, head :: args⟩ : Line).Plain := by
    rw [Line.Plain, List.head?_cons, Option.any_some, Token.isDir, hhead]
    rfl
  have hsections' := checkSections_append hplain hlast' hsections
  have hentryPlace := entry_lt_of_checkSections hsections hsecond hentry
  have hsecond' : (front ++ [⟨n, head :: args⟩, last'])[s.text + 1]? = some second := by
    rw [List.getElem?_append_left hentryPlace] at hsecond ⊢
    exact hsecond
  have htextLines : s.textLines (front ++ [⟨n, head :: args⟩, last']) =
      s.textLines (front ++ [last]) ++ [⟨n, head :: args⟩] := by
    have hsplit : front ++ [⟨n, head :: args⟩, last'] = (front ++ [⟨n, head :: args⟩]) ++ [last'] := by simp
    rw [Sections.textLines, Sections.textLines, hsplit, List.dropLast_concat, List.dropLast_concat,
      List.drop_append_of_le_length (by omega)]
  have hdataLines : s.dataLines (front ++ [⟨n, head :: args⟩, last']) = s.dataLines (front ++ [last]) := by
    rw [Sections.dataLines, Sections.dataLines, List.take_append_of_le_length (by omega),
      List.take_append_of_le_length (by omega)]
  have hmnemonics' : checkMnemonics (front ++ [⟨n, head :: args⟩, last']) = .ok () :=
    checkMnemonics_append (List.forall_mem_cons.2 ⟨isUnknownMnemonic_name hhead, hargs⟩) hlast' hmnemonics
  have hprogram' : layoutProgram s (front ++ [⟨n, head :: args⟩, last']) Symbols.predefined wanted =
      .ok { program with
        slots := program.slots.push (some ⟨m, head.loc, args, n⟩)
        breakpoint := program.breakpointAt wanted n } := by
    refine layoutProgram_eq_ok_iff.2 ⟨second, entry, hsecond', hentry, ?_, hglobals⟩
    rw [htextLines, List.foldlM_append]
    exact bind_eq_ok.2 ⟨program, hfold, foldlM_cons_eq_ok.2
      ⟨_, ProgramState.add_statement hhead hsingle args n wanted hroom, rfl⟩⟩
  refine ⟨_, bind_eq_ok.2 ⟨s, hsections', bind_eq_ok.2 ⟨(), hmnemonics', bind_eq_ok.2 ⟨_, hprogram',
    bind_eq_ok.2 ⟨data, ?_, rfl⟩⟩⟩⟩, rfl, rfl, rfl⟩
  rw [hdataLines]
  exact hdata

end Avr

import Avr.Proofs.Layout.Data

/-!
# Headers and the first global name

* `HeaderAt` : the places of the headers of a section;
* `Headers.Of` : what is noted of lines; `foldlM_note_ok` : it is all their headers;
* `checkSections_eq_ok_iff` : when a program has sections; `checkSections_ok` : its headers;
* `findSome?_globalName?` : the line behind the header of the text section declares the first global name.
-/

namespace Avr

/-! ## Headers -/

def HeaderAt (lines : List Line) (d : Directive) (k : Nat) : Prop :=
  ∃ line, lines[k]? = some line ∧ line.isHeader d = true

theorem headerAt_nil (d : Directive) (k : Nat) : ¬ HeaderAt [] d k := by
  rintro ⟨line, hline, -⟩
  cases hline

theorem headerAt_concat {lines : List Line} {line : Line} {d : Directive} {k : Nat} :
    HeaderAt (lines ++ [line]) d k ↔ HeaderAt lines d k ∨ (k = lines.length ∧ line.isHeader d = true) := by
  unfold HeaderAt
  rcases Nat.lt_trichotomy k lines.length with hk | rfl | hk
  · rw [List.getElem?_append_left hk]
    constructor
    · exact .inl
    · rintro (h | ⟨rfl, -⟩)
      · exact h
      · exact absurd hk (Nat.lt_irrefl _)
  · rw [List.getElem?_concat_length, List.getElem?_eq_none (Nat.le_refl _)]
    simp
  · rw [List.getElem?_eq_none (by simp; omega), List.getElem?_eq_none (by omega)]
    simp
    omega

theorem isHeader_inj {line : Line} {d d' : Directive} (h : line.isHeader d = true) (h' : line.isHeader d' = true) :
    d = d' := by
  unfold Line.isHeader at h h'
  split at h
  · next t u htokens =>
    rw [htokens, Bool.and_eq_true] at h'
    rw [Bool.and_eq_true] at h
    have hd : Lexeme.dir d = .dir d' := (eq_of_beq h.2).symm.trans (eq_of_beq h'.2)
    cases hd
    rfl
  · cases h

theorem head?_of_isHeader {line : Line} {d : Directive} (h : line.isHeader d = true) :
    line.tokens.head?.any (·.isDir .header) = true := by
  unfold Line.isHeader at h
  split at h
  · next t u htokens =>
    rw [htokens]
    exact (Bool.and_eq_true_iff.1 h).1
  · cases h

/-- All headers of the lines are noted, at most one for each section. -/
structure Headers.Of (h : Headers) (lines : List Line) : Prop where
  data : ∀ k, h.data = some k ↔ HeaderAt lines .data k
  text : ∀ k, h.text = some k ↔ HeaderAt lines .text k

theorem Headers.of_nil : Headers.Of {} [] :=
  ⟨fun k => by simp [headerAt_nil], fun k => by simp [headerAt_nil]⟩

/-- A section that is met for the first time is noted at its place. -/
theorem headerAt_first {lines : List Line} {line : Line} {d : Directive} {noted : Option Nat}
    (hof : ∀ k, noted = some k ↔ HeaderAt lines d k) (hline : line.isHeader d = true) (hnone : noted.isSome = false)
    (k : Nat) : some lines.length = some k ↔ HeaderAt (lines ++ [line]) d k := by
  have hno : ¬ HeaderAt lines d k := by
    intro h
    rw [(hof k).2 h] at hnone
    cases hnone
  rw [headerAt_concat, Option.some.injEq, eq_comm]
  simp [hno, hline]

theorem headerAt_other {lines : List Line} {line : Line} {d : Directive} {noted : Option Nat}
    (hof : ∀ k, noted = some k ↔ HeaderAt lines d k) (hline : line.isHeader d = false) (k : Nat) :
    noted = some k ↔ HeaderAt (lines ++ [line]) d k := by
  rw [headerAt_concat, hof, hline]
  simp

theorem note_ok {h h' : Headers} {lines : List Line} {line : Line} (hof : h.Of lines)
    (hnote : h.note line lines.length = .ok h') : h'.Of (lines ++ [line]) := by
  have hother : ∀ {d d' : Directive}, line.isHeader d = true → d ≠ d' → line.isHeader d' = false := by
    intro d d' hd hne
    by_contra hd'
    exact hne (isHeader_inj hd (Bool.not_eq_false _ ▸ hd'))
  unfold Headers.note at hnote
  dsimp only at hnote
  split at hnote
  · next hhead =>
    have hno : ∀ d, line.isHeader d = false := by
      intro d
      by_contra hd
      rw [head?_of_isHeader (Bool.not_eq_false _ ▸ hd)] at hhead
      cases hhead
    cases hnote
    exact ⟨headerAt_other hof.data (hno _), headerAt_other hof.text (hno _)⟩
  · split at hnote
    · next hdata =>
      split at hnote
      · cases hnote
      · next hnone =>
        cases hnote
        exact ⟨headerAt_first hof.data hdata (Bool.not_eq_true _ ▸ hnone),
          headerAt_other hof.text (hother hdata (by decide))⟩
    · split at hnote
      · next htext =>
        split at hnote
        · cases hnote
        · next hnone =>
          cases hnote
          exact ⟨headerAt_other hof.data (hother htext (by decide)),
            headerAt_first hof.text htext (Bool.not_eq_true _ ▸ hnone)⟩
      · cases hnote

theorem foldlM_note_ok (pre : List Line) {post : List Line} {h h' : Headers} (hof : h.Of pre)
    (hfold : (post.zipIdx pre.length).foldlM (fun (h : Headers) (line, place) => h.note line place) h = .ok h') :
    h'.Of (pre ++ post) := by
  induction post generalizing pre h with
  | nil =>
    cases hfold
    rwa [List.append_nil]
  | cons line post ih =>
    rw [List.zipIdx_cons] at hfold
    obtain ⟨u, hu, hfold⟩ := foldlM_cons_eq_ok.1 hfold
    have hrest := ih _ (note_ok hof hu) (by rwa [List.length_append])
    rwa [List.append_assoc] at hrest

/-- The sections that a program has, by the lines at its ends and by its headers. -/
theorem checkSections_eq_ok_iff {lines : List Line} {s : Sections} :
    checkSections lines = .ok s ↔ ∃ first last headers, lines.head? = some first ∧ lines.getLast? = some last ∧
      (first.isHeader .data || first.isHeader .text) = true ∧ last.isLoneDir .finish = true ∧
      lines.zipIdx.foldlM (fun h p => Headers.note h p.1 p.2) {} = .ok headers ∧ headers.text = some s.text ∧
      headers.data = s.data ∧ headers.data.filter (s.text < ·) = none := by
  unfold checkSections
  dsimp only
  constructor
  · intro h
    split at h
    · next first last hfirst hlast =>
      split at h
      · cases h
      · next hheader =>
        split at h
        · cases h
        · next hend =>
          obtain ⟨headers, hheaders, h⟩ := bind_eq_ok.1 h
          rw [Bool.not_eq_true, Bool.not_eq_false'] at hheader hend
          refine ⟨first, last, headers, hfirst, hlast, hheader, hend, hheaders, ?_⟩
          split at h
          · cases h
          · next text htext =>
            split at h
            · cases h
            · next hafter =>
              cases h
              exact ⟨htext, rfl, hafter⟩
    · cases h
  · rintro ⟨first, last, headers, hfirst, hlast, hheader, hend, hheaders, htext, hdata, hafter⟩
    rw [hfirst, hlast]
    dsimp only
    rw [hheader, hend, Bool.not_true, if_neg Bool.false_ne_true, if_neg Bool.false_ne_true]
    refine bind_eq_ok.2 ⟨headers, hheaders, ?_⟩
    rw [htext]
    dsimp only
    rw [hafter, hdata]
    rfl

/-- A program starts with a header. The sections are at their headers, and the one of the data is not behind the other
one. -/
theorem checkSections_ok {lines : List Line} {s : Sections} (h : checkSections lines = .ok s) :
    (HeaderAt lines .data 0 ∨ HeaderAt lines .text 0) ∧ (∀ k, s.data = some k ↔ HeaderAt lines .data k) ∧
      (∀ k, k = s.text ↔ HeaderAt lines .text k) ∧ ∀ k, s.data = some k → k ≤ s.text := by
  obtain ⟨first, last, headers, hfirst, -, hstart, -, hheaders, htext, hdata, hafter⟩ := checkSections_eq_ok_iff.1 h
  have hof : headers.Of ([] ++ lines) := foldlM_note_ok [] Headers.of_nil hheaders
  rw [List.nil_append] at hof
  rw [hdata, Option.filter_eq_none_iff] at hafter
  refine ⟨?_, fun k => hdata ▸ hof.data k, fun k => ?_, fun k hk => ?_⟩
  · rw [Bool.or_eq_true] at hstart
    rw [List.head?_eq_getElem?] at hfirst
    exact hstart.imp (fun hd => ⟨first, hfirst, hd⟩) fun ht => ⟨first, hfirst, ht⟩
  · rw [← hof.text k, htext, Option.some.injEq, eq_comm]
  · have hle := hafter k hk
    simpa using hle

/-! ## Global names -/

theorem globalName?_of_isHeader {line : Line} {d : Directive} (h : line.isHeader d = true) :
    globalName? line.tokens = none := by
  unfold Line.isHeader at h
  split at h
  · next t u htokens =>
    have hu : u.lexeme = .dir d := eq_of_beq (Bool.and_eq_true_iff.1 h).2
    rw [htokens]
    unfold globalName?
    split
    · next heq =>
      cases heq
      cases hu
    · rfl
  · cases h

/-- No line of the data section declares a global name. -/
theorem globalName?_of_add {s t : DataState} {line : Line} (h : s.add line = .ok t) :
    globalName? line.tokens = none := by
  by_contra hsome
  obtain ⟨entry, hentry⟩ := Option.ne_none_iff_exists'.1 hsome
  unfold globalName? at hentry
  split at hentry
  · next dir name raw loc htokens =>
    split at hentry
    · next hdir =>
      have hlexeme : dir.lexeme = .dir .global := eq_of_beq hdir
      obtain ⟨lexeme, raw', loc'⟩ := dir
      obtain rfl : lexeme = .dir .global := hlexeme
      unfold DataState.add at h
      rw [htokens] at h
      cases h
    · cases hentry
  · cases hentry

theorem globalName?_of_layoutData {lines : List Line} {symbols : Symbols} {t : DataState}
    (h : layoutData lines symbols = .ok t) : ∀ line ∈ lines, globalName? line.tokens = none := by
  unfold layoutData at h
  generalize (⟨Array.replicate ramStart 0, symbols⟩ : DataState) = s at h
  induction lines generalizing s with
  | nil => exact fun line hline => absurd hline List.not_mem_nil
  | cons line lines ih =>
    obtain ⟨u, hu, h⟩ := foldlM_cons_eq_ok.1 h
    exact List.forall_mem_cons.2 ⟨globalName?_of_add hu, ih u h⟩

/-- In front of the header of the text section there are the data section and its header, if there are any lines. -/
theorem mem_dataLines {lines : List Line} {s : Sections} (h : checkSections lines = .ok s) {k : Nat} {line : Line}
    (hk : k < s.text) (hline : lines[k]? = some line) : line.isHeader .data = true ∨ line ∈ s.dataLines lines := by
  obtain ⟨hstart, hdata, htext, -⟩ := checkSections_ok h
  rcases hstart with hzero | hzero
  · cases k with
    | zero =>
      obtain ⟨first, hfirst, hheader⟩ := hzero
      obtain rfl := Option.some.inj (hline.symm.trans hfirst)
      exact .inl hheader
    | succ k =>
      right
      rw [Sections.dataLines, (hdata 0).2 hzero]
      refine List.mem_of_getElem? (i := k) ?_
      rw [List.getElem?_drop, List.getElem?_take, if_pos (by omega), ← hline]
      congr 1
      omega
  · have hfirst := (htext 0).2 hzero
    omega

/-- The line behind the header of the text section declares the first global name. -/
theorem findSome?_globalName? {lines : List Line} {s : Sections} (h : checkSections lines = .ok s) {symbols : Symbols}
    {t : DataState} (hdata : layoutData (s.dataLines lines) symbols = .ok t) {line : Line} {entry : String × Loc}
    (hline : lines[s.text + 1]? = some line) (hentry : globalName? line.tokens = some entry) :
    lines.findSome? (fun line => globalName? line.tokens) = some entry := by
  have hfront : (lines.take (s.text + 1)).findSome? (fun line => globalName? line.tokens) = none := by
    rw [List.findSome?_eq_none_iff]
    intro line' hmem
    obtain ⟨k, hk, rfl⟩ := List.mem_iff_getElem.1 hmem
    rw [List.length_take] at hk
    have hget : lines[k]? = some (lines.take (s.text + 1))[k] := by
      rw [List.getElem_take, List.getElem?_eq_getElem]
    rcases Nat.lt_or_ge k s.text with hlt | hge
    · rcases mem_dataLines h hlt hget with hheader | hmem
      · exact globalName?_of_isHeader hheader
      · exact globalName?_of_layoutData hdata _ hmem
    · obtain ⟨-, -, htext, -⟩ := checkSections_ok h
      obtain ⟨header, hheader, his⟩ := (htext k).1 (by omega)
      rw [hget, Option.some.injEq] at hheader
      rw [hheader]
      exact globalName?_of_isHeader his
  rw [← List.take_append_drop (s.text + 1) lines, List.findSome?_append, hfront, Option.none_or]
  obtain ⟨hlt, rfl⟩ := List.getElem?_eq_some_iff.1 hline
  rw [List.drop_eq_getElem_cons hlt, List.findSome?_cons, hentry]

end Avr

import Mathlib.Data.List.NodupEquivFin
import Avr.Proofs.Layout.Appended

/-!
# The structure of a program and the lines of each pass

* `Documented` : the structure that a program must have, by what its lines consist of;
* `HeaderOnce`, `Line.Known`, `note_of_known` : headers that are noted one after another;
* `documented_of_checkSections`, `checkSections_of_documented` : the programs that have sections are of this structure;
* `Sections.Cut`, `checkSections_cut` : the sections cut a program into its headers and the lines of each pass.
-/

namespace Avr

/-! ## Structure -/

def Line.lexemes (l : Line) : List Lexeme := l.tokens.map (·.lexeme)

def headerOf (d : Directive) : List Lexeme := [.dir .header, .dir d]

/-- The structure that a program must have, by what its lines consist of. -/
structure Documented (shape : List (List Lexeme)) : Prop where
  first : shape.head? = some (headerOf .data) ∨ shape.head? = some (headerOf .text)
  last : shape.getLast? = some [.dir .finish]
  headers : ∀ line ∈ shape, line.head? = some (.dir .header) → line = headerOf .data ∨ line = headerOf .text
  text : shape.count (headerOf .text) = 1
  data : shape.count (headerOf .data) ≤ 1
  before : ∀ i k : Nat, shape[i]? = some (headerOf .data) → shape[k]? = some (headerOf .text) → i < k

theorem isHeader_eq_true_iff {line : Line} {d : Directive} : line.isHeader d = true ↔ line.lexemes = headerOf d := by
  unfold Line.isHeader Line.lexemes headerOf
  split
  · next t u htokens =>
    rw [htokens, Bool.and_eq_true, Token.isDir, Token.isDir, beq_iff_eq, beq_iff_eq]
    simp
  · next htokens =>
    constructor
    · exact fun h => absurd h Bool.false_ne_true
    · intro h
      rw [List.map_eq_cons_iff] at h
      obtain ⟨t, rest, ht, -, h⟩ := h
      rw [List.map_eq_singleton_iff] at h
      obtain ⟨u, rfl, -⟩ := h
      exact absurd ht (htokens t u)

theorem isLoneDir_eq_true_iff {line : Line} {d : Directive} : line.isLoneDir d = true ↔ line.lexemes = [.dir d] := by
  constructor
  · intro h
    obtain ⟨t, htokens, ht⟩ := exists_of_isLoneDir h
    rw [Line.lexemes, htokens, List.map_singleton, ht]
  · intro h
    obtain ⟨t, htokens, ht⟩ := List.map_eq_singleton_iff.1 h
    rw [Line.isLoneDir, htokens]
    exact beq_iff_eq.2 ht

theorem head?_eq_true_iff {line : Line} :
    line.tokens.head?.any (·.isDir .header) = true ↔ line.lexemes.head? = some (.dir .header) := by
  unfold Line.lexemes
  cases line.tokens with
  | nil => simp
  | cons t ts => simp [Token.isDir]

theorem headerAt_iff {lines : List Line} {d : Directive} {k : Nat} :
    HeaderAt lines d k ↔ (lines.map Line.lexemes)[k]? = some (headerOf d) := by
  rw [List.getElem?_map, Option.map_eq_some_iff]
  exact exists_congr fun line => and_congr_right fun _ => isHeader_eq_true_iff

/-- What stands in a list at most once stands at one place. -/
theorem count_le_one_iff {α : Type} [BEq α] [LawfulBEq α] {l : List α} {a : α} :
    l.count a ≤ 1 ↔ ∀ i j : Nat, l[i]? = some a → l[j]? = some a → i = j := by
  have htwice : 1 < l.count a ↔ l.Duplicate a := by
    rw [List.duplicate_iff_sublist]
    exact List.replicate_sublist_iff.symm
  rw [← Nat.not_lt, htwice, List.duplicate_iff_exists_distinct_get]
  constructor
  · intro h i j hi hj
    obtain ⟨hilt, hi⟩ := List.getElem?_eq_some_iff.1 hi
    obtain ⟨hjlt, hj⟩ := List.getElem?_eq_some_iff.1 hj
    by_contra hne
    rcases Nat.lt_or_gt_of_ne hne with hlt | hlt
    · exact h ⟨⟨i, hilt⟩, ⟨j, hjlt⟩, hlt, hi.symm, hj.symm⟩
    · exact h ⟨⟨j, hjlt⟩, ⟨i, hilt⟩, hlt, hj.symm, hi.symm⟩
  · rintro h ⟨i, j, hlt, rfl, heq⟩
    have hij := h i j (by simp) (by rw [heq]; simp)
    omega

/-! ## Headers -/

theorem headerAt_append {front : List Line} {d : Directive} {k : Nat} (h : HeaderAt front d k) (rest : List Line) :
    HeaderAt (front ++ rest) d k := by
  obtain ⟨line, hline, hheader⟩ := h
  exact ⟨line, by rw [List.getElem?_append_left (List.getElem?_eq_some_iff.1 hline).1, hline], hheader⟩

def HeaderOnce (lines : List Line) (d : Directive) : Prop := ∀ i j, HeaderAt lines d i → HeaderAt lines d j → i = j

theorem HeaderOnce.append_left {front rest : List Line} {d : Directive} (h : HeaderOnce (front ++ rest) d) :
    HeaderOnce front d :=
  fun i j hi hj => h i j (headerAt_append hi rest) (headerAt_append hj rest)

theorem headerOnce_iff {lines : List Line} {d : Directive} :
    HeaderOnce lines d ↔ (lines.map Line.lexemes).count (headerOf d) ≤ 1 := by
  rw [count_le_one_iff]
  simp only [HeaderOnce, headerAt_iff]

/-- A header is that of one of the two sections. -/
def Line.Known (line : Line) : Prop :=
  line.tokens.head?.any (·.isDir .header) = true → line.isHeader .data = true ∨ line.isHeader .text = true

/-- A section with a header at the end of the lines has not been noted before. -/
theorem isSome_eq_false_of_once {pre : List Line} {line : Line} {d : Directive} {noted : Option Nat}
    (hof : ∀ k, noted = some k ↔ HeaderAt pre d k) (honce : HeaderOnce (pre ++ [line]) d)
    (hline : line.isHeader d = true) : noted.isSome = false := by
  rw [← Bool.not_eq_true, Option.isSome_iff_exists]
  rintro ⟨k, hk⟩
  have hat := (hof k).1 hk
  have heq := honce k pre.length (headerAt_append hat _) (headerAt_concat.2 (.inr ⟨rfl, hline⟩))
  obtain ⟨line', hline', -⟩ := hat
  have hlt := (List.getElem?_eq_some_iff.1 hline').1
  omega

theorem note_of_known {h : Headers} {pre : List Line} {line : Line} (hof : h.Of pre) (hknown : line.Known)
    (hdata : HeaderOnce (pre ++ [line]) .data) (htext : HeaderOnce (pre ++ [line]) .text) :
    ∃ h', h.note line pre.length = .ok h' := by
  unfold Headers.note
  dsimp only
  split
  · exact ⟨_, rfl⟩
  · next hhead =>
    rw [Bool.not_eq_true, Bool.not_eq_false'] at hhead
    split
    · next hline =>
      rw [isSome_eq_false_of_once hof.data hdata hline]
      exact ⟨_, rfl⟩
    · next hline =>
      have hline := (hknown hhead).resolve_left hline
      rw [if_pos hline, isSome_eq_false_of_once hof.text htext hline]
      exact ⟨_, rfl⟩

theorem foldlM_note_of_known (pre : List Line) {post : List Line} {h : Headers} (hof : h.Of pre)
    (hknown : ∀ line ∈ post, line.Known) (hdata : HeaderOnce (pre ++ post) .data)
    (htext : HeaderOnce (pre ++ post) .text) :
    ∃ h', (post.zipIdx pre.length).foldlM (fun (h : Headers) (line, place) => h.note line place) h = .ok h' := by
  induction post generalizing pre h with
  | nil => exact ⟨h, rfl⟩
  | cons line post ih =>
    rw [List.forall_mem_cons] at hknown
    rw [List.append_cons] at hdata htext
    obtain ⟨u, hu⟩ := note_of_known hof hknown.1 hdata.append_left htext.append_left
    obtain ⟨h', hh'⟩ := ih (pre ++ [line]) (note_ok hof hu) hknown.2 hdata htext
    rw [List.length_append, List.length_singleton] at hh'
    rw [List.zipIdx_cons]
    exact ⟨h', foldlM_cons_eq_ok.2 ⟨u, hu, hh'⟩⟩

theorem known_of_note {h h' : Headers} {line : Line} {place : Nat} (hnote : h.note line place = .ok h') :
    line.Known := by
  intro hhead
  unfold Headers.note at hnote
  dsimp only at hnote
  rw [hhead, Bool.not_true, if_neg Bool.false_ne_true] at hnote
  split at hnote
  · next hdata => exact .inl hdata
  · split at hnote
    · next htext => exact .inr htext
    · cases hnote

theorem known_of_foldlM_note {lines : List Line} {n : Nat} {h h' : Headers}
    (hfold : (lines.zipIdx n).foldlM (fun (h : Headers) (line, place) => h.note line place) h = .ok h') :
    ∀ line ∈ lines, line.Known := by
  induction lines generalizing n h with
  | nil => exact fun line hline => absurd hline List.not_mem_nil
  | cons line lines ih =>
    rw [List.zipIdx_cons] at hfold
    obtain ⟨u, hu, hfold⟩ := foldlM_cons_eq_ok.1 hfold
    exact List.forall_mem_cons.2 ⟨known_of_note hu, ih hfold⟩

theorem known_iff {line : Line} :
    line.Known ↔ (line.lexemes.head? = some (.dir .header) →
      line.lexemes = headerOf .data ∨ line.lexemes = headerOf .text) := by
  rw [Line.Known, head?_eq_true_iff, isHeader_eq_true_iff, isHeader_eq_true_iff]

/-- A program that has sections has the structure that it must have. -/
theorem documented_of_checkSections {lines : List Line} {s : Sections} (h : checkSections lines = .ok s) :
    Documented (lines.map Line.lexemes) := by
  obtain ⟨first, last, headers, hfirst, hlast, hheader, hlone, hfold, -⟩ := checkSections_eq_ok_iff.1 h
  obtain ⟨-, hdata, htext, hle⟩ := checkSections_ok h
  have hat : HeaderAt lines .text s.text := (htext s.text).1 rfl
  constructor
  · rw [List.head?_map, hfirst, Option.map_some, Option.some.injEq, Option.some.injEq, ← isHeader_eq_true_iff,
      ← isHeader_eq_true_iff]
    exact Bool.or_eq_true_iff.1 hheader
  · rw [List.getLast?_map, hlast, Option.map_some, isLoneDir_eq_true_iff.1 hlone]
  · rw [List.forall_mem_map]
    exact fun line hline => known_iff.1 (known_of_foldlM_note hfold line hline)
  · refine Nat.le_antisymm (headerOnce_iff.1 fun i j hi hj => ?_) ?_
    · rw [(htext i).2 hi, (htext j).2 hj]
    · exact List.one_le_count_iff.2 (List.mem_of_getElem? (headerAt_iff.1 hat))
  · refine headerOnce_iff.1 fun i j hi hj => ?_
    exact Option.some.inj (((hdata i).2 hi).symm.trans ((hdata j).2 hj))
  · intro i k hi hk
    rw [← headerAt_iff] at hi hk
    obtain rfl := (htext k).2 hk
    refine Nat.lt_of_le_of_ne (hle i ((hdata i).2 hi)) ?_
    rintro rfl
    obtain ⟨line, hline, hd⟩ := hi
    obtain ⟨line', hline', ht⟩ := hat
    obtain rfl := Option.some.inj (hline.symm.trans hline')
    exact absurd (isHeader_inj hd ht) (by decide)

/-- A program of the structure that it must have has sections. -/
theorem checkSections_of_documented {lines : List Line} (h : Documented (lines.map Line.lexemes)) :
    ∃ s, checkSections lines = .ok s := by
  have hfirst := h.first
  have hlast := h.last
  have hknown := h.headers
  rw [List.head?_map, Option.map_eq_some_iff, Option.map_eq_some_iff] at hfirst
  rw [List.getLast?_map, Option.map_eq_some_iff] at hlast
  rw [List.forall_mem_map] at hknown
  have htexts := Nat.le_of_eq h.text
  obtain ⟨headers, hfold⟩ := foldlM_note_of_known [] Headers.of_nil
    (fun line hline => known_iff.2 (hknown line hline)) (headerOnce_iff.2 h.data) (headerOnce_iff.2 htexts)
  have hof : headers.Of ([] ++ lines) := foldlM_note_ok [] Headers.of_nil hfold
  obtain ⟨text, htext⟩ := List.mem_iff_getElem?.1 (List.one_le_count_iff.1 (Nat.le_of_eq h.text.symm))
  obtain ⟨last, hlast, hend⟩ := hlast
  have hstart : ∃ first, lines.head? = some first ∧ (first.isHeader .data || first.isHeader .text) = true := by
    simp only [Bool.or_eq_true, isHeader_eq_true_iff]
    rcases hfirst with ⟨first, hfirst, hheader⟩ | ⟨first, hfirst, hheader⟩
    · exact ⟨first, hfirst, .inl hheader⟩
    · exact ⟨first, hfirst, .inr hheader⟩
  obtain ⟨first, hfirst, hheader⟩ := hstart
  refine ⟨⟨headers.data, text⟩, checkSections_eq_ok_iff.2 ⟨first, last, headers, hfirst, hlast, hheader,
    isLoneDir_eq_true_iff.2 hend, hfold, (hof.text text).2 (headerAt_iff.2 htext), rfl, ?_⟩⟩
  rw [Option.filter_eq_none_iff]
  intro data hdata
  have hlt := h.before data text (headerAt_iff.1 ((hof.data data).1 hdata)) htext
  exact fun hafter => Nat.lt_asymm hlt (of_decide_eq_true hafter)

/-! ## The lines of each pass -/

/-- The sections are at the headers of a program, and each pass has the lines of its section. -/
structure Sections.Cut (s : Sections) (lines : List Line) : Prop where
  data : ∀ k, s.data = some k ↔ (lines.map Line.lexemes)[k]? = some (headerOf .data)
  text : ∀ k, s.text = k ↔ (lines.map Line.lexemes)[k]? = some (headerOf .text)
  /-- In front of the text header there are the data header and the lines of the data pass, or there is nothing. -/
  front : (∃ header, s.data = some 0 ∧ lines.take s.text = header :: s.dataLines lines) ∨
    s.data = none ∧ s.text = 0 ∧ s.dataLines lines = []
  /-- Behind the text header there are one line, those of the program pass and the last line, or only the last line. -/
  behind : ∃ last, (∃ second, lines.drop (s.text + 1) = second :: s.textLines lines ++ [last]) ∨
    lines.drop (s.text + 1) = [last]

theorem text_lt_of_checkSections {front : List Line} {last : Line} {s : Sections}
    (h : checkSections (front ++ [last]) = .ok s) : s.text < front.length := by
  obtain ⟨-, -, htext, -⟩ := checkSections_ok h
  rcases headerAt_concat.1 ((htext s.text).1 rfl) with ⟨line, hline, -⟩ | ⟨-, hheader⟩
  · exact (List.getElem?_eq_some_iff.1 hline).1
  · obtain ⟨front', last', heq, -, hlone⟩ := checkSections_concat h
    obtain ⟨-, rfl⟩ := List.append_singleton_inj.1 heq
    rw [isHeader_of_isLoneDir hlone] at hheader
    cases hheader

/-- The sections of a program cut it into its headers and the lines of each pass. -/
theorem checkSections_cut {lines : List Line} {s : Sections} (h : checkSections lines = .ok s) : s.Cut lines := by
  obtain ⟨hstart, hdata, htext, -⟩ := checkSections_ok h
  have hbefore : ∀ k, s.data = some k → k < s.text := fun k hk => (documented_of_checkSections h).before k s.text
    (headerAt_iff.1 ((hdata k).1 hk)) (headerAt_iff.1 ((htext s.text).1 rfl))
  refine ⟨fun k => (hdata k).trans headerAt_iff, fun k => eq_comm.trans ((htext k).trans headerAt_iff), ?_, ?_⟩
  · rcases hstart with hzero | hzero
    · have hnoted := (hdata 0).2 hzero
      obtain ⟨header, hheader, -⟩ := hzero
      obtain ⟨rest, rfl⟩ := List.head?_eq_some_iff.1 (List.head?_eq_getElem? ▸ hheader)
      left
      refine ⟨header, hnoted, ?_⟩
      rw [Sections.dataLines, hnoted]
      obtain ⟨n, hn⟩ := Nat.exists_eq_add_one_of_ne_zero (Nat.ne_of_gt (hbefore 0 hnoted))
      rw [hn, List.take_succ_cons]
      rfl
    · have hfirst := (htext 0).2 hzero
      have hnone : s.data = none := by
        rw [Option.eq_none_iff_forall_ne_some]
        intro k hk
        have hlt := hbefore k hk
        omega
      exact .inr ⟨hnone, hfirst.symm, by rw [Sections.dataLines, hnone]⟩
  · obtain ⟨front, last, rfl, -, -⟩ := checkSections_concat h
    have hlt := text_lt_of_checkSections h
    refine ⟨last, ?_⟩
    rw [List.drop_append_of_le_length hlt, Sections.textLines, List.dropLast_concat]
    cases hbehind : front.drop (s.text + 1) with
    | nil => exact .inr rfl
    | cons second rest =>
      have hrest : front.drop (s.text + 2) = rest := by rw [← List.tail_drop, hbehind, List.tail_cons]
      exact .inl ⟨second, by rw [hrest]⟩

end Avr

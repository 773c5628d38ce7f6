import Avr.Proofs.Text.Ascii
import Avr.Token.Pattern

/-!
# Texts that are cut as one piece

* `Stops` : what may stand behind a piece: nothing, a blank or a comma;
* `IsPiece` : a text that is cut as one piece of its class wherever it stands in front of such a rest;
* `isPiece_letters`, `isPiece_register`, `isPiece_decimal`, `isPiece_hex`, `isPiece_plain`, `isPiece_displaced`, … : the
  texts that instructions and bytes are written with.
-/

namespace Avr.Lexer

open Text

/-- What may stand behind a piece: nothing, a blank or a comma. -/
def Stops (rest : List Char) : Prop := rest = [] ∨ ∃ c cs, rest = c :: cs ∧ (c = ' ' ∨ c = ',')

/-- A text without white space that is cut as one piece of its class wherever it stands. -/
structure IsPiece (kind : Kind) (t : List Char) : Prop where
  nonEmpty : t ≠ []
  solid : ∀ c ∈ t, isWhiteSpace c = false
  cut : ∀ rest, Stops rest → firstMatch? (t ++ rest) = some (some kind, t.length)

/-! ## Runs -/

theorem Stops.head {rest : List Char} (h : Stops rest) {p : Char → Bool} (hblank : p ' ' = false)
    (hcomma : p ',' = false) : rest.takeWhile p = [] ∧ rest.dropWhile p = rest := by
  rcases h with rfl | ⟨c, cs, rfl, rfl | rfl⟩
  · exact ⟨rfl, rfl⟩
  · rw [List.takeWhile_cons_of_neg (by rw [hblank]; exact Bool.false_ne_true),
      List.dropWhile_cons_of_neg (by rw [hblank]; exact Bool.false_ne_true)]
    exact ⟨rfl, rfl⟩
  · rw [List.takeWhile_cons_of_neg (by rw [hcomma]; exact Bool.false_ne_true),
      List.dropWhile_cons_of_neg (by rw [hcomma]; exact Bool.false_ne_true)]
    exact ⟨rfl, rfl⟩

theorem run_append {p : Char → Bool} {t rest : List Char} (ht : ∀ c ∈ t, p c = true) (hrest : Stops rest)
    (hblank : p ' ' = false) (hcomma : p ',' = false) : run p (t ++ rest) = t.length := by
  rw [run, List.takeWhile_append_of_pos ht, (hrest.head hblank hcomma).1, List.append_nil]

theorem drop_run (p : Char → Bool) (cs : List Char) : cs.drop (run p cs) = cs.dropWhile p := by
  induction cs with
  | nil => rfl
  | cons c cs ih =>
    unfold run at ih ⊢
    by_cases hc : p c = true
    · rw [List.takeWhile_cons_of_pos hc, List.dropWhile_cons_of_pos hc, List.length_cons, List.drop_succ_cons, ih]
    · rw [List.takeWhile_cons_of_neg hc, List.dropWhile_cons_of_neg hc]
      rfl

/-- A word ends where a text of this sort does. -/
theorem word_append {t rest : List Char} (hrest : Stops rest) : word t.length (t ++ rest) = some t.length := by
  have hends : endsWord rest = true := by
    rcases hrest with rfl | ⟨c, cs, rfl, rfl | rfl⟩ <;> rfl
  rw [word, List.drop_left, if_pos hends]

/-- A text of one sort of characters starts with none of another sort, whatever may stand behind it. -/
theorem head?_append_ne {p : Char → Bool} {t rest : List Char} (ht : ∀ c ∈ t, p c = true) (hrest : Stops rest) {d : Char}
    (hd : p d = false) (hblank : d ≠ ' ') (hcomma : d ≠ ',') : (t ++ rest).head? ≠ some d := by
  cases t with
  | nil =>
    rcases hrest with rfl | ⟨c, cs, rfl, rfl | rfl⟩
    · exact nofun
    · exact fun h => hblank (Option.some.inj h).symm
    · exact fun h => hcomma (Option.some.inj h).symm
  | cons c t =>
    intro h
    obtain rfl : c = d := Option.some.inj h
    rw [ht c List.mem_cons_self] at hd
    cases hd

/-- The first pattern that matches decides. -/
theorem firstMatch?_eq {cs : List Char} {k n : Nat} {kind : Option Kind} {pattern : Pattern}
    (hk : patterns[k]? = some (kind, pattern)) (hnone : ∀ p ∈ patterns.take k, p.2 cs = none)
    (h : pattern cs = some n) : firstMatch? cs = some (kind, n) := by
  have hsplit : patterns = patterns.take k ++ (kind, pattern) :: patterns.drop (k + 1) := by
    obtain ⟨hlt, hget⟩ := List.getElem?_eq_some_iff.1 hk
    rw [← hget, List.getElem_cons_drop, List.take_append_drop]
  have hbefore : (patterns.take k).findSome? (fun p => (p.2 cs).map (p.1, ·)) = none := by
    rw [List.findSome?_eq_none_iff]
    intro p hp
    rw [hnone p hp, Option.map_none]
  unfold firstMatch?
  rw [hsplit, List.findSome?_append]
  erw [hbefore]
  rw [List.findSome?_cons]
  simp only [h, Option.map_some, Option.none_or]

/-! ## Patterns that do not match -/

theorem comment_eq_none {c : Char} {cs : List Char} (hc : c ≠ ';') : comment (c :: cs) = none := by
  unfold comment
  split
  · next h => exact absurd (List.cons.inj h).1 hc
  · rfl

theorem blanks_eq_none {c : Char} {cs : List Char} (hc : isWhiteSpace c = false) : blanks (c :: cs) = none := by
  unfold blanks run
  rw [List.takeWhile_cons_of_neg (by rw [hc]; exact Bool.false_ne_true)]
  rfl

theorem label_eq_none {c : Char} {t rest : List Char} (ht : ':' ∉ t) (hrest : Stops rest) :
    label (c :: (t ++ rest)) = none := by
  have hhead : ((t ++ rest).drop (run (fun d => isWordChar d || d == '.') (t ++ rest))).head? ≠ some ':' := by
    rw [drop_run, List.dropWhile_append]
    cases hdrop : t.dropWhile fun d => isWordChar d || d == '.' with
    | nil =>
      rw [List.isEmpty_nil, if_pos rfl, (hrest.head rfl rfl).2]
      rcases hrest with rfl | ⟨c, cs, rfl, rfl | rfl⟩
      · rw [List.head?_nil]
        decide
      all_goals
        rw [List.head?_cons]
        decide
    | cons d ds =>
      rw [List.isEmpty_cons, if_neg Bool.false_ne_true, List.cons_append, List.head?_cons, ne_eq, Option.some.injEq]
      rintro rfl
      exact ht ((List.dropWhile_sublist _).subset (hdrop ▸ List.mem_cons_self))
  unfold label
  dsimp only
  rw [beq_false_of_ne hhead, Bool.and_false, if_neg Bool.false_ne_true]

theorem keyword_eq_none {a b c x : Char} {d e f : Char} {t : List Char} (ha : x ≠ a) (hd : x ≠ d) :
    keyword [a, b, c] [d, e, f] (x :: t) = none := by
  unfold keyword
  rw [List.isPrefixOf_cons_cons, List.isPrefixOf_cons_cons, beq_false_of_ne ha.symm, beq_false_of_ne hd.symm,
    Bool.false_and, Bool.false_and, Bool.or_self, if_neg Bool.false_ne_true]

theorem register_eq_none {c : Char} {cs : List Char} (hr : c ≠ 'r') (hR : c ≠ 'R') : register (c :: cs) = none := by
  unfold register
  dsimp only
  rw [beq_false_of_ne hr, beq_false_of_ne hR, Bool.or_self, Bool.false_and, if_neg Bool.false_ne_true]

theorem signLength_of_ne {c : Char} {cs : List Char} (hc : c ≠ '-') : signLength (c :: cs) = 0 := by
  unfold signLength
  split
  · next h => exact absurd (List.cons.inj h).1 hc
  · rfl

theorem radixMark?_of_ne {c : Char} {cs : List Char} (h0 : c ≠ '0') (hd : c ≠ '$') : radixMark? (c :: cs) = none := by
  unfold radixMark?
  split
  all_goals first
    | rfl
    | next h => first
      | exact absurd (List.cons.inj h).1 h0
      | exact absurd (List.cons.inj h).1 hd

theorem markedInteger_eq_none {c : Char} {cs : List Char} (hc : c ≠ '-') (h0 : c ≠ '0') (hd : c ≠ '$') :
    markedInteger (c :: cs) = none := by
  unfold markedInteger
  dsimp only
  rw [signLength_of_ne hc, List.drop_zero, radixMark?_of_ne h0 hd]

theorem decimalInteger_eq_none {c : Char} {cs : List Char} (hc : c ≠ '-') (hd : isDecimalDigit c = false) :
    decimalInteger (c :: cs) = none := by
  unfold decimalInteger run
  dsimp only
  rw [signLength_of_ne hc, List.drop_zero, List.takeWhile_cons_of_neg (by rw [hd]; exact Bool.false_ne_true)]
  rfl

theorem displaced_eq_none {c : Char} {cs : List Char} (hY : c ≠ 'Y') (hZ : c ≠ 'Z') : displaced (c :: cs) = none := by
  unfold displaced
  split
  · next heq =>
    obtain ⟨rfl, -⟩ := List.cons.inj heq
    dsimp only
    rw [beq_false_of_ne hY, beq_false_of_ne hZ, Bool.or_self, Bool.false_and, if_neg Bool.false_ne_true]
  · rfl

theorem incremented_eq_none {c : Char} {cs : List Char} (hc : isPointerLetter c = false) :
    incremented (c :: cs) = none := by
  unfold incremented
  split
  · next heq =>
    obtain ⟨rfl, -⟩ := List.cons.inj heq
    rw [hc, if_neg Bool.false_ne_true]
  · rfl

/-- A text whose third character is another one is no keyword. -/
theorem keyword_eq_none_of_third {a b c d e f x y : Char} {cs : List Char} (hc : cs.head? ≠ some c)
    (hf : cs.head? ≠ some f) : keyword [a, b, c] [d, e, f] (x :: y :: cs) = none := by
  have hlast : ∀ z : Char, cs.head? ≠ some z → [z].isPrefixOf cs = false := by
    intro z hz
    cases cs with
    | nil => rfl
    | cons w ws =>
      have hne : z ≠ w := fun h => hz (by rw [List.head?_cons, h])
      rw [List.isPrefixOf_cons_cons, beq_false_of_ne hne, Bool.false_and]
  unfold keyword
  rw [List.isPrefixOf_cons_cons, List.isPrefixOf_cons_cons, List.isPrefixOf_cons_cons, List.isPrefixOf_cons_cons,
    hlast c hc, hlast f hf, Bool.and_false, Bool.and_false, Bool.and_false, Bool.and_false, Bool.or_self,
    if_neg Bool.false_ne_true]

theorem register_eq_none_of_next {x y : Char} {cs : List Char} (hy : isDecimalDigit y = false) :
    register (x :: y :: cs) = none := by
  unfold register run
  dsimp only
  rw [List.takeWhile_cons_of_neg (by rw [hy]; exact Bool.false_ne_true), List.length_nil, bne_self_eq_false,
    Bool.and_false, if_neg Bool.false_ne_true]

/-! ## White space and commas -/

theorem firstMatch?_of_blank {c : Char} (hc : isWhiteSpace c = true) (cs : List Char) :
    firstMatch? (c :: cs) = some (none, run isWhiteSpace cs + 1) := by
  have hcomment : c ≠ ';' := by
    rintro rfl
    exact absurd hc (by decide)
  have hblanks : blanks (c :: cs) = some (run isWhiteSpace cs + 1) := by
    unfold blanks run
    rw [List.takeWhile_cons_of_pos hc]
    rfl
  refine firstMatch?_eq (k := 1) rfl ?_ hblanks
  intro p hp
  obtain rfl := List.mem_singleton.1 hp
  exact comment_eq_none hcomment

/-- A comma is a piece of its own, whatever stands behind it. -/
theorem firstMatch?_comma (rest : List Char) : firstMatch? (',' :: rest) = some (some .comma, 1) := by
  refine firstMatch?_eq (k := 16) rfl ?_ rfl
  simp only [patterns, List.take_succ_cons, List.take_zero, List.forall_mem_cons]
  exact ⟨rfl, rfl, rfl, rfl, rfl, rfl, rfl, rfl, rfl, rfl, rfl, rfl, displaced_eq_none (by decide) (by decide),
    incremented_eq_none rfl, rfl, rfl, by simp⟩

/-! ## Letters -/

theorem ne_of_isAlpha {c d : Char} (hc : c.isAlpha = true) (hd : d.isAlpha = false) : c ≠ d := by
  rintro rfl
  rw [hc] at hd
  cases hd

/-- Two to six letters are a word that may be a mnemonic. -/
theorem isPiece_letters {t : List Char} (ht : ∀ c ∈ t, c.isAlpha = true) (h2 : 2 ≤ t.length) (h6 : t.length ≤ 6) :
    IsPiece .inst t := by
  obtain ⟨x, y, t, rfl⟩ : ∃ x y t', t = x :: y :: t' := by
    match t, h2 with
    | x :: y :: t', _ => exact ⟨x, y, t', rfl⟩
  have hall := ht
  rw [List.forall_mem_cons, List.forall_mem_cons] at hall
  obtain ⟨hx, hy, ht'⟩ := hall
  refine ⟨List.cons_ne_nil _ _, fun c hc => (isAlpha_classes (ht c hc)).2.1, fun rest hrest => ?_⟩
  have hthird := head?_append_ne ht' hrest (d := '8') (by decide) (by decide) (by decide)
  have hcolon : ':' ∉ y :: t := by
    intro h
    exact absurd (ht _ (List.mem_cons_of_mem _ h)) (by decide)
  refine firstMatch?_eq (k := 8) rfl ?_ ?_
  · simp only [patterns, List.take_succ_cons, List.take_zero, List.forall_mem_cons]
    exact ⟨comment_eq_none (ne_of_isAlpha hx (by decide)), blanks_eq_none (isAlpha_classes hx).2.1,
      label_eq_none hcolon hrest, keyword_eq_none_of_third hthird hthird, keyword_eq_none_of_third hthird hthird,
      register_eq_none_of_next (isAlpha_classes hy).2.2,
      markedInteger_eq_none (ne_of_isAlpha hx (by decide)) (ne_of_isAlpha hx (by decide))
        (ne_of_isAlpha hx (by decide)),
      decimalInteger_eq_none (ne_of_isAlpha hx (by decide)) (isAlpha_classes hx).2.2, by simp⟩
  · unfold mnemonic
    dsimp only
    rw [run_append (p := isLetter) ht hrest (by decide) (by decide), if_pos ⟨h2, h6⟩, word_append hrest]

/-! ## Digits -/

theorem ne_of_isDigit {c d : Char} (hc : c.isDigit = true) (hd : d.isDigit = false) : c ≠ d := by
  rintro rfl
  rw [hc] at hd
  cases hd

theorem not_mem_of_isDigit {ds : List Char} (hds : ∀ c ∈ ds, c.isDigit = true) {d : Char} (hd : d.isDigit = false) :
    d ∉ ds := fun h => ne_of_isDigit (hds d h) hd rfl

theorem solid_digits {ds : List Char} (hds : ∀ c ∈ ds, c.isDigit = true) : ∀ c ∈ ds, isWhiteSpace c = false :=
  fun c hc => (isDigit_classes (hds c hc)).2.2.1

theorem run_digits {ds rest : List Char} (hds : ∀ c ∈ ds, c.isDigit = true) (hrest : Stops rest) :
    run isDecimalDigit (ds ++ rest) = ds.length :=
  run_append (fun c hc => (isDigit_classes (hds c hc)).1) hrest (by decide) (by decide)

theorem radixMark?_zero {cs : List Char} (h : ∀ c : Char, c.isAlpha = true → cs.head? ≠ some c) :
    radixMark? ('0' :: cs) = none := by
  unfold radixMark?
  split
  · next heq => exact absurd (congrArg List.head? (List.cons.inj heq).2) (h 'x' (by decide))
  · next heq => exact absurd (congrArg List.head? (List.cons.inj heq).2) (h 'X' (by decide))
  · next heq => exact absurd (List.cons.inj heq).1 (by decide)
  · next heq => exact absurd (congrArg List.head? (List.cons.inj heq).2) (h 'o' (by decide))
  · next heq => exact absurd (congrArg List.head? (List.cons.inj heq).2) (h 'O' (by decide))
  · next heq => exact absurd (congrArg List.head? (List.cons.inj heq).2) (h 'b' (by decide))
  · next heq => exact absurd (congrArg List.head? (List.cons.inj heq).2) (h 'B' (by decide))
  · rfl

/-- Digits in front of the end of a piece are no mark of a radix. -/
theorem radixMark?_digits {d : Char} {ds rest : List Char} (hds : ∀ c ∈ d :: ds, c.isDigit = true)
    (hrest : Stops rest) : radixMark? (d :: (ds ++ rest)) = none := by
  rw [List.forall_mem_cons] at hds
  by_cases h0 : d = '0'
  · subst h0
    refine radixMark?_zero fun c hc => ?_
    refine head?_append_ne hds.2 hrest (not_isDigit_of_isAlpha hc) ?_ ?_
    · exact ne_of_isAlpha hc (by decide)
    · exact ne_of_isAlpha hc (by decide)
  · exact radixMark?_of_ne h0 (ne_of_isDigit hds.1 (by decide))

theorem isPiece_register {d : Char} {ds : List Char} (hds : ∀ c ∈ d :: ds, c.isDigit = true) :
    IsPiece .reg ('R' :: d :: ds) := by
  refine ⟨List.cons_ne_nil _ _, List.forall_mem_cons.2 ⟨by decide, solid_digits hds⟩, fun rest hrest => ?_⟩
  refine firstMatch?_eq (k := 5) rfl ?_ ?_
  · simp only [patterns, List.take_succ_cons, List.take_zero, List.forall_mem_cons]
    exact ⟨comment_eq_none (by decide), blanks_eq_none (by decide),
      label_eq_none (not_mem_of_isDigit hds (by decide)) hrest, keyword_eq_none (by decide) (by decide),
      keyword_eq_none (by decide) (by decide), by simp⟩
  · have hword := word_append (t := 'R' :: d :: ds) hrest
    rw [List.cons_append] at hword ⊢
    unfold register
    dsimp only
    rw [run_digits hds hrest]
    exact hword

theorem isPiece_decimal {d : Char} {ds : List Char} (hds : ∀ c ∈ d :: ds, c.isDigit = true) :
    IsPiece .int (d :: ds) := by
  have hall := hds
  rw [List.forall_mem_cons] at hall
  have hd := hall.1
  refine ⟨List.cons_ne_nil _ _, solid_digits hds, fun rest hrest => ?_⟩
  have hsign : signLength (d :: (ds ++ rest)) = 0 := signLength_of_ne (ne_of_isDigit hd (by decide))
  refine firstMatch?_eq (k := 7) rfl ?_ ?_
  · simp only [patterns, List.take_succ_cons, List.take_zero, List.forall_mem_cons]
    refine ⟨comment_eq_none (ne_of_isDigit hd (by decide)), blanks_eq_none (isDigit_classes hd).2.2.1,
      label_eq_none (not_mem_of_isDigit hall.2 (by decide)) hrest,
      keyword_eq_none (ne_of_isDigit hd (by decide)) (ne_of_isDigit hd (by decide)),
      keyword_eq_none (ne_of_isDigit hd (by decide)) (ne_of_isDigit hd (by decide)),
      register_eq_none (ne_of_isDigit hd (by decide)) (ne_of_isDigit hd (by decide)), ?_, by simp⟩
    unfold markedInteger
    dsimp only
    rw [List.cons_append, hsign, List.drop_zero, radixMark?_digits hds hrest]
  · have hword := word_append (t := d :: ds) hrest
    unfold decimalInteger
    dsimp only
    rw [List.cons_append, hsign, List.drop_zero, ← List.cons_append, run_digits hds hrest, Nat.zero_add, if_neg nofun,
      hword]

theorem isPiece_negative {d : Char} {ds : List Char} (hds : ∀ c ∈ d :: ds, c.isDigit = true) :
    IsPiece .int ('-' :: d :: ds) := by
  refine ⟨List.cons_ne_nil _ _, List.forall_mem_cons.2 ⟨by decide, solid_digits hds⟩, fun rest hrest => ?_⟩
  have hsign : signLength ('-' :: (d :: ds ++ rest)) = 1 := rfl
  refine firstMatch?_eq (k := 7) rfl ?_ ?_
  · simp only [patterns, List.take_succ_cons, List.take_zero, List.forall_mem_cons]
    refine ⟨comment_eq_none (by decide), blanks_eq_none (by decide),
      label_eq_none (not_mem_of_isDigit hds (by decide)) hrest, keyword_eq_none (by decide) (by decide),
      keyword_eq_none (by decide) (by decide), register_eq_none (by decide) (by decide), ?_, by simp⟩
    unfold markedInteger
    dsimp only
    rw [List.cons_append, hsign, List.drop_succ_cons, List.drop_zero, List.cons_append, radixMark?_digits hds hrest]
  · have hword := word_append (t := '-' :: d :: ds) hrest
    unfold decimalInteger
    dsimp only
    rw [List.cons_append, hsign, List.drop_succ_cons, List.drop_zero, run_digits hds hrest, if_neg nofun,
      Nat.add_comm]
    exact hword

theorem toNat_lt_of_isHexDigit {c : Char} (h : isHexDigit c = true) : c.toNat < 128 := by
  simp only [isHexDigit, Bool.or_eq_true, Bool.and_eq_true, decide_eq_true_iff] at h
  rcases h with (⟨-, h⟩ | ⟨-, h⟩) | ⟨-, h⟩
  · exact Nat.lt_of_le_of_lt (UInt32.le_iff_toNat_le.1 (Char.le_def.1 h)) (by decide)
  · exact Nat.lt_of_le_of_lt (UInt32.le_iff_toNat_le.1 (Char.le_def.1 h)) (by decide)
  · exact Nat.lt_of_le_of_lt (UInt32.le_iff_toNat_le.1 (Char.le_def.1 h)) (by decide)

theorem solid_of_isHexDigit {c : Char} (h : isHexDigit c = true) : isWhiteSpace c = false := by
  have hall := of_ascii (p := fun c => !isHexDigit c || !isWhiteSpace c) (by decide +kernel) (toNat_lt_of_isHexDigit h)
  simpa [h] using hall

theorem isPiece_hex {a b : Char} (ha : isHexDigit a = true) (hb : isHexDigit b = true) :
    IsPiece .int ['0', 'x', a, b] := by
  have hdigits : ∀ c ∈ [a, b], isHexDigit c = true := by
    simp only [List.forall_mem_cons]
    exact ⟨ha, hb, by simp⟩
  have hsolid : ∀ c ∈ [a, b], isWhiteSpace c = false := fun c hc => solid_of_isHexDigit (hdigits c hc)
  refine ⟨List.cons_ne_nil _ _, List.forall_mem_cons.2 ⟨by decide, List.forall_mem_cons.2 ⟨by decide, hsolid⟩⟩,
    fun rest hrest => ?_⟩
  have hcolon : ':' ∉ ['x', a, b] := by
    intro h
    rcases List.mem_cons.1 h with h | h
    · exact absurd h (by decide)
    · exact absurd (hdigits _ h) (by decide)
  refine firstMatch?_eq (k := 6) rfl ?_ ?_
  · simp only [patterns, List.take_succ_cons, List.take_zero, List.forall_mem_cons]
    exact ⟨comment_eq_none (by decide), blanks_eq_none (by decide), label_eq_none hcolon hrest,
      keyword_eq_none (by decide) (by decide), keyword_eq_none (by decide) (by decide),
      register_eq_none (by decide) (by decide), by simp⟩
  · have hrun : run isHexDigit (a :: b :: rest) = 2 := run_append hdigits hrest (by decide) (by decide)
    have hword : word 4 ('0' :: 'x' :: a :: b :: rest) = some 4 := word_append (t := ['0', 'x', a, b]) hrest
    change (if run isHexDigit (a :: b :: rest) = 0 then none
      else word (2 + run isHexDigit (a :: b :: rest)) ('0' :: 'x' :: a :: b :: rest)) = some 4
    rw [hrun, if_neg nofun, hword]

/-! ## Fixed texts -/

/-- A text is one piece if the patterns say so in front of each character that may follow. -/
theorem isPiece_of_cut {kind : Kind} {c : Char} {t : List Char} (hc : (c :: t).any isWhiteSpace = false)
    (hend : firstMatch? (c :: t) = some (some kind, t.length + 1))
    (hblank : ∀ cs, firstMatch? (c :: t ++ ' ' :: cs) = some (some kind, t.length + 1))
    (hcomma : ∀ cs, firstMatch? (c :: t ++ ',' :: cs) = some (some kind, t.length + 1)) : IsPiece kind (c :: t) := by
  refine ⟨List.cons_ne_nil _ _, fun d hd => ?_, fun rest hrest => ?_⟩
  · rw [← Bool.not_eq_true]
    exact List.any_eq_false.1 hc d hd
  rcases hrest with rfl | ⟨d, cs, rfl, rfl | rfl⟩
  · rw [List.append_nil]
    exact hend
  · exact hblank cs
  · exact hcomma cs

theorem isPiece_plain (p : Pointer) : IsPiece .word [p.letter] := by
  cases p <;> exact isPiece_of_cut rfl rfl (fun _ => rfl) (fun _ => rfl)

theorem isPiece_postInc (p : Pointer) : IsPiece .wordPlus [p.letter, '+'] := by
  cases p <;> exact isPiece_of_cut rfl rfl (fun _ => rfl) (fun _ => rfl)

theorem isPiece_preDec (p : Pointer) : IsPiece .minusWord ['-', p.letter] := by
  cases p <;> exact isPiece_of_cut rfl rfl (fun _ => rfl) (fun _ => rfl)

/-- Y or Z, a plus sign and one or two digits are a pointer with displacement. -/
theorem isPiece_displaced {p : Pointer} (hp : p ≠ .X) {ds : List Char} (hds : ∀ c ∈ ds, c.isDigit = true)
    (hlen : ds.length = 1 ∨ ds.length = 2) : IsPiece .wordPlusQ (p.letter :: '+' :: ds) := by
  have hletter : p.letter = 'Y' ∨ p.letter = 'Z' := by
    cases p with
    | X => exact absurd rfl hp
    | Y => exact .inl rfl
    | Z => exact .inr rfl
  have hsolid : isWhiteSpace p.letter = false := by cases p <;> decide
  refine ⟨List.cons_ne_nil _ _,
    List.forall_mem_cons.2 ⟨hsolid, List.forall_mem_cons.2 ⟨by decide, solid_digits hds⟩⟩, fun rest hrest => ?_⟩
  refine firstMatch?_eq (k := 12) rfl ?_ ?_
  · simp only [patterns, List.take_succ_cons, List.take_zero, List.forall_mem_cons]
    rcases hletter with hY | hZ
    · rw [hY]
      exact ⟨rfl, rfl, rfl, rfl, rfl, rfl, rfl, rfl, rfl, rfl, rfl, rfl, by simp⟩
    · rw [hZ]
      exact ⟨rfl, rfl, rfl, rfl, rfl, rfl, rfl, rfl, rfl, rfl, rfl, rfl, by simp⟩
  · have hword := word_append (t := p.letter :: '+' :: ds) hrest
    rw [List.cons_append, List.cons_append] at hword ⊢
    have hread : displaced (p.letter :: '+' :: (ds ++ rest)) =
        let n := run isDecimalDigit (ds ++ rest)
        if (p.letter == 'Y' || p.letter == 'Z') && (n == 1 || n == 2) then
          word (n + 2) (p.letter :: '+' :: (ds ++ rest))
        else none := rfl
    rw [hread, run_digits hds hrest]
    have hshort : ((p.letter == 'Y' || p.letter == 'Z') && (ds.length == 1 || ds.length == 2)) = true := by
      rw [Bool.and_eq_true, Bool.or_eq_true, Bool.or_eq_true, beq_iff_eq, beq_iff_eq, beq_iff_eq, beq_iff_eq]
      exact ⟨hletter, hlen⟩
    dsimp only
    rw [if_pos hshort]
    exact hword

end Avr.Lexer

import Avr.Proofs.Token.Literal
import Avr.Proofs.Token.Names

/-!
# Where scanning stops

* `Advances`, `advances_of_mem` : every pattern that matches takes a character at least, and none behind the end;
* `IsInteger`, `integers_eq_none_iff` : the patterns of integers match where a literal stands that ends with its word;
* `Stuck`, `firstMatch?_eq_none_iff` : only a digit that starts no such literal is matched by no pattern;
* `Reaches` : what is left of a text when so many patterns have matched one after another;
* `scan_stops` : scanning ends, and it fails where it is stuck.
-/

namespace Avr.Lexer

open Text

/-! ## Patterns that match -/

/-- Where the pattern matches it takes a character at least, and none behind the end of the text. -/
def Advances (p : Pattern) : Prop := ∀ cs n, p cs = some n → 0 < n ∧ n ≤ cs.length

theorem comment_advances : Advances comment := by
  intro cs n h
  unfold comment at h
  split at h
  · cases h
    exact ⟨Nat.succ_pos _, Nat.le_refl _⟩
  · cases h

theorem nonEmpty_eq_some {m n : Nat} (h : nonEmpty m = some n) : n = m ∧ m ≠ 0 := by
  unfold nonEmpty at h
  split at h
  · cases h
  · next hm => exact ⟨(Option.some.inj h).symm, hm⟩

theorem blanks_advances : Advances blanks := by
  intro cs n h
  obtain ⟨rfl, hpos⟩ := nonEmpty_eq_some h
  exact ⟨Nat.pos_of_ne_zero hpos, run_le_length _ cs⟩

theorem label_advances : Advances label := by
  intro cs n h
  cases cs with
  | nil => cases h
  | cons c cs =>
    unfold label at h
    dsimp only at h
    split at h
    · next hcond =>
      cases h
      have hlt : run (fun d => isWordChar d || d == '.') cs < cs.length := by
        by_contra hle
        rw [Bool.and_eq_true, List.drop_of_length_le (Nat.not_lt.1 hle)] at hcond
        exact absurd hcond.2 (by decide)
      exact ⟨Nat.succ_pos _, Nat.succ_le_succ hlt⟩
    · cases h

theorem keyword_advances {a b : List Char} (hpos : 0 < a.length) (hlength : b.length = a.length) :
    Advances (keyword a b) := by
  intro cs n h
  unfold keyword at h
  split at h
  · next hp =>
    rw [word_eq_some h]
    rw [Bool.or_eq_true, List.isPrefixOf_iff_prefix, List.isPrefixOf_iff_prefix] at hp
    rcases hp with hp | hp
    · exact ⟨hpos, hp.length_le⟩
    · exact ⟨hpos, hlength ▸ hp.length_le⟩
  · cases h

theorem register_advances : Advances register := by
  intro cs n h
  cases cs with
  | nil => cases h
  | cons c cs =>
    unfold register at h
    dsimp only at h
    split at h
    · rw [word_eq_some h]
      exact ⟨Nat.succ_pos _, Nat.succ_le_succ (run_le_length _ cs)⟩
    · cases h

theorem add_run_le {p : Char → Bool} {k : Nat} {cs : List Char} (h : run p (cs.drop k) ≠ 0) :
    0 < k + run p (cs.drop k) ∧ k + run p (cs.drop k) ≤ cs.length := by
  have hle := run_le_length p (cs.drop k)
  rw [List.length_drop] at hle
  omega

theorem markedInteger_advances : Advances markedInteger := by
  intro cs n h
  unfold markedInteger at h
  dsimp only at h
  split at h
  · split at h
    · cases h
    · next hrun =>
      rw [word_eq_some h]
      exact add_run_le hrun
  · cases h

theorem decimalInteger_advances : Advances decimalInteger := by
  intro cs n h
  unfold decimalInteger at h
  dsimp only at h
  split at h
  · cases h
  · next hrun =>
    rw [word_eq_some h]
    exact add_run_le hrun

theorem mnemonic_advances : Advances mnemonic := by
  intro cs n h
  unfold mnemonic at h
  dsimp only at h
  split at h
  · next hrun =>
    rw [word_eq_some h]
    exact ⟨Nat.lt_of_lt_of_le Nat.two_pos hrun.1, run_le_length _ cs⟩
  · cases h

theorem closing_le {quote : Char} {cs : List Char} {n : Nat} (h : closing quote cs = some n) : n ≤ cs.length := by
  fun_induction closing quote cs generalizing n with
  | case1 => cases h
  | case2 cs =>
    cases h
    exact Nat.le_add_left 1 _
  | case3 => cases h
  | case4 c cs hne ih =>
    obtain ⟨m, hm, rfl⟩ := Option.map_eq_some_iff.1 h
    exact Nat.succ_le_succ (Nat.succ_le_succ (ih hm))
  | case5 c cs hne hslash ih =>
    obtain ⟨m, hm, rfl⟩ := Option.map_eq_some_iff.1 h
    exact Nat.succ_le_succ (ih hm)

theorem str_advances (quote : Char) : Advances (str quote) := by
  intro cs n h
  cases cs with
  | nil => cases h
  | cons c cs =>
    unfold str at h
    dsimp only at h
    split at h
    · obtain ⟨m, hm, rfl⟩ := Option.map_eq_some_iff.1 h
      exact ⟨Nat.succ_pos _, Nat.succ_le_succ (closing_le hm)⟩
    · cases h

theorem directive_advances : Advances directive := by
  intro cs n h
  unfold directive at h
  split at h
  · obtain ⟨m, hm, rfl⟩ := Option.map_eq_some_iff.1 h
    obtain ⟨rfl, -⟩ := nonEmpty_eq_some hm
    exact ⟨Nat.succ_pos _, Nat.succ_le_succ (run_le_length _ _)⟩
  · cases h

theorem displaced_advances : Advances displaced := by
  intro cs n h
  unfold displaced at h
  split at h
  · dsimp only at h
    split at h
    · rw [word_eq_some h]
      exact ⟨Nat.succ_pos _, Nat.succ_le_succ (Nat.succ_le_succ (run_le_length _ _))⟩
    · cases h
  · cases h

theorem incremented_advances : Advances incremented := by
  intro cs n h
  unfold incremented at h
  split at h
  · split at h
    · cases h
      exact ⟨Nat.two_pos, Nat.le_add_left 2 _⟩
    · cases h
  · cases h

theorem decremented_advances : Advances decremented := by
  intro cs n h
  unfold decremented at h
  split at h
  · split at h
    · rw [word_eq_some h]
      exact ⟨Nat.two_pos, Nat.le_add_left 2 _⟩
    · cases h
  · cases h

theorem advances_of_eq_one {p : Pattern} (hnil : p [] = none) (h : ∀ cs n, p cs = some n → n = 1) : Advances p := by
  intro cs n hn
  obtain rfl := h cs n hn
  cases cs with
  | nil =>
    rw [hnil] at hn
    cases hn
  | cons c cs => exact ⟨Nat.one_pos, Nat.le_add_left 1 _⟩

theorem comma_eq_some {cs : List Char} {n : Nat} (h : comma cs = some n) : n = 1 := by
  unfold comma at h
  split at h
  · exact (Option.some.inj h).symm
  · cases h

theorem sign_advances : Advances sign := by
  intro cs n h
  unfold sign at h
  split at h
  · split at h
    · cases h
      exact ⟨Nat.two_pos, Nat.le_add_left 2 _⟩
    · split at h
      · cases h
        exact ⟨Nat.one_pos, Nat.le_add_left 1 _⟩
      · cases h
  · split at h
    · cases h
      exact ⟨Nat.one_pos, Nat.le_refl 1⟩
    · cases h
  · cases h

theorem name_advances : Advances name := by
  intro cs n h
  cases cs with
  | nil => cases h
  | cons c cs =>
    unfold name at h
    dsimp only at h
    split at h
    · cases h
    · cases h
      exact ⟨Nat.succ_pos _, Nat.succ_le_succ (run_le_length _ cs)⟩

/-- Every pattern of the table takes a character at least. -/
theorem advances_of_mem : ∀ p ∈ patterns, Advances p.2 := by
  simp only [patterns, List.forall_mem_cons]
  exact ⟨comment_advances, blanks_advances, label_advances, keyword_advances (by decide) rfl,
    keyword_advances (by decide) rfl, register_advances, markedInteger_advances, decimalInteger_advances,
    mnemonic_advances, str_advances _, str_advances _, directive_advances, displaced_advances, incremented_advances,
    decremented_advances, advances_of_eq_one rfl fun _ _ => pointer_eq_some,
    advances_of_eq_one rfl fun _ _ => comma_eq_some, sign_advances, advances_of_eq_one rfl fun _ _ => symbol_eq_some,
    name_advances, by simp⟩

theorem firstMatch?_advances {cs : List Char} {kind? : Option Kind} {n : Nat} (h : firstMatch? cs = some (kind?, n)) :
    0 < n ∧ n ≤ cs.length := by
  obtain ⟨pattern, hmem, hpattern⟩ := mem_of_firstMatch? h
  exact advances_of_mem _ hmem cs n hpattern

/-! ## Integers -/

/-- An integer literal with digits of any script: possibly a minus sign, a mark of the radix, and at least one digit. -/
def IsInteger (t : List Char) : Prop :=
  ∃ (negative : Bool) (mark : Mark) (ds : List Char), t = signText negative ++ (mark.text ++ ds) ∧ ds ≠ [] ∧
    ∀ c ∈ ds, mark.isDigit c = true

theorem isHexDigit_of_isOctalDigit {c : Char} (h : isOctalDigit c = true) : isHexDigit c = true := by
  rw [isOctalDigit, Bool.and_eq_true, decide_eq_true_iff, decide_eq_true_iff] at h
  rw [isHexDigit, decide_eq_true h.1, decide_eq_true (Char.le_trans h.2 (by decide))]
  rfl

theorem isHexDigit_of_isBinaryDigit {c : Char} (h : isBinaryDigit c = true) : isHexDigit c = true := by
  rw [isBinaryDigit, Bool.or_eq_true, beq_iff_eq, beq_iff_eq] at h
  rcases h with rfl | rfl <;> decide

theorem isWordChar_of_isHexDigit {c : Char} (h : isHexDigit c = true) : isWordChar c = true := by
  have hall := of_ascii (p := fun c => !isHexDigit c || isWordChar c) (by decide +kernel) (toNat_lt_of_isHexDigit h)
  simpa [h] using hall

theorem isWordChar_of_isDigit {mark : Mark} {c : Char} (h : mark.isDigit c = true) : isWordChar c = true := by
  cases mark with
  | lowerX | upperX | dollar => exact isWordChar_of_isHexDigit h
  | lowerO | upperO => exact isWordChar_of_isHexDigit (isHexDigit_of_isOctalDigit h)
  | lowerB | upperB => exact isWordChar_of_isHexDigit (isHexDigit_of_isBinaryDigit h)
  | decimal => exact isWordChar_of_isDecimalDigit h

theorem run_of_endsWord {mark : Mark} {ds rest : List Char} (hds : ∀ c ∈ ds, mark.isDigit c = true)
    (hrest : endsWord rest = true) : run mark.isDigit (ds ++ rest) = ds.length := by
  cases rest with
  | nil => rw [List.append_nil, run_all hds]
  | cons d rest =>
    refine run_eq ?_ hds rest
    rw [Bool.eq_false_iff]
    intro hd
    rw [endsWord, isWordChar_of_isDigit hd] at hrest
    cases hrest

/-- The run of digits behind a sign and a mark is a literal. -/
theorem exists_isInteger (negative : Bool) (mark : Mark) {ds : List Char} (hrun : run mark.isDigit ds ≠ 0) {n : Nat}
    (h : word ((signText negative).length + mark.text.length + run mark.isDigit ds)
      (signText negative ++ (mark.text ++ ds)) = some n) :
    ∃ t rest, signText negative ++ (mark.text ++ ds) = t ++ rest ∧ IsInteger t ∧ endsWord rest = true := by
  have hne : ds.takeWhile mark.isDigit ≠ [] := fun hnil => hrun (by rw [run, hnil, List.length_nil])
  refine ⟨signText negative ++ (mark.text ++ ds.takeWhile mark.isDigit), ds.dropWhile mark.isDigit, ?_,
    ⟨negative, mark, _, rfl, hne, fun c hc => List.all_eq_true.1 List.all_takeWhile c hc⟩, ?_⟩
  · rw [List.append_assoc, List.append_assoc, List.takeWhile_append_dropWhile]
  · unfold word at h
    rw [← List.drop_drop, ← List.drop_drop, List.drop_left, List.drop_left, drop_run] at h
    split at h
    · next hends => exact hends
    · cases h

theorem signLength_signText (negative : Bool) {mark : Mark} {ds : List Char} (hne : ds ≠ [])
    (hds : ∀ c ∈ ds, mark.isDigit c = true) (rest : List Char) :
    signLength (signText negative ++ (mark.text ++ (ds ++ rest))) = (signText negative).length := by
  cases negative with
  | true => rfl
  | false =>
    obtain ⟨d, ds, rfl⟩ := List.exists_cons_of_ne_nil hne
    cases mark with
    | decimal =>
      refine signLength_of_ne ?_
      rintro rfl
      exact absurd (hds '-' List.mem_cons_self) (by decide)
    | _ => rfl

theorem radixMark?_text {mark : Mark} (hmark : mark ≠ .decimal) (ds : List Char) :
    radixMark? (mark.text ++ ds) = some (mark.text.length, mark.isDigit) := by
  cases mark with
  | decimal => exact absurd rfl hmark
  | _ => rfl

theorem word_of_endsWord (negative : Bool) (mark : Mark) (ds : List Char) {rest : List Char}
    (hrest : endsWord rest = true) : word ((signText negative).length + mark.text.length + ds.length)
      (signText negative ++ (mark.text ++ (ds ++ rest))) ≠ none := by
  unfold word
  rw [← List.drop_drop, ← List.drop_drop, List.drop_left, List.drop_left, List.drop_left, if_pos hrest]
  exact nofun

/-- Where a literal ends with its word one of the patterns of integers matches. -/
theorem integers_of_isInteger {t rest : List Char} (ht : IsInteger t) (hrest : endsWord rest = true) :
    markedInteger (t ++ rest) ≠ none ∨ decimalInteger (t ++ rest) ≠ none := by
  obtain ⟨negative, mark, ds, rfl, hne, hds⟩ := ht
  have hsign := signLength_signText negative hne hds rest
  have hrun := run_of_endsWord hds hrest
  have hpos : ds.length ≠ 0 := fun h => hne (List.length_eq_zero_iff.1 h)
  rw [List.append_assoc, List.append_assoc]
  by_cases hmark : mark = .decimal
  · subst hmark
    right
    unfold decimalInteger
    dsimp only
    rw [hsign, List.drop_left]
    have hrun : run isDecimalDigit (Mark.decimal.text ++ (ds ++ rest)) = ds.length := hrun
    rw [hrun, if_neg hpos]
    exact word_of_endsWord negative .decimal ds hrest
  · left
    unfold markedInteger
    dsimp only
    rw [hsign, List.drop_left, radixMark?_text hmark]
    dsimp only
    rw [← List.drop_drop, List.drop_left, List.drop_left, hrun, if_neg hpos]
    exact word_of_endsWord negative mark ds hrest

theorem isInteger_of_markedInteger {cs : List Char} {n : Nat} (h : markedInteger cs = some n) :
    ∃ t rest, cs = t ++ rest ∧ IsInteger t ∧ endsWord rest = true := by
  obtain ⟨negative, ts, rfl, hsign⟩ := exists_signText cs
  unfold markedInteger at h
  dsimp only at h
  rw [hsign, List.drop_left] at h
  split at h
  · next m isDigit hmark =>
    obtain ⟨mark, ds, -, rfl, rfl, rfl⟩ := exists_mark hmark
    rw [← List.drop_drop, List.drop_left, List.drop_left] at h
    split at h
    · cases h
    · next hrun => exact exists_isInteger negative mark hrun h
  · cases h

theorem isInteger_of_decimalInteger {cs : List Char} {n : Nat} (h : decimalInteger cs = some n) :
    ∃ t rest, cs = t ++ rest ∧ IsInteger t ∧ endsWord rest = true := by
  obtain ⟨negative, ts, rfl, hsign⟩ := exists_signText cs
  unfold decimalInteger at h
  dsimp only at h
  rw [hsign, List.drop_left] at h
  split at h
  · cases h
  · next hrun => exact exists_isInteger negative .decimal hrun h

/-- Neither pattern of integers matches just where no integer literal stands that ends with its word. -/
theorem integers_eq_none_iff {cs : List Char} : (markedInteger cs = none ∧ decimalInteger cs = none) ↔
    ∀ t rest, cs = t ++ rest → IsInteger t → endsWord rest = false := by
  constructor
  · rintro ⟨hmarked, hdecimal⟩ t rest rfl ht
    rw [Bool.eq_false_iff]
    intro hrest
    rcases integers_of_isInteger ht hrest with h | h
    · exact h hmarked
    · exact h hdecimal
  · intro h
    have hnone : ¬ ∃ t rest, cs = t ++ rest ∧ IsInteger t ∧ endsWord rest = true := by
      rintro ⟨t, rest, hcs, ht, hrest⟩
      rw [h t rest hcs ht] at hrest
      cases hrest
    rw [Option.eq_none_iff_forall_ne_some, Option.eq_none_iff_forall_ne_some]
    exact ⟨fun n hn => hnone (isInteger_of_markedInteger hn), fun n hn => hnone (isInteger_of_decimalInteger hn)⟩

/-! ## Where no pattern matches -/

/-- The text starts with a digit, and with no integer literal that ends with its word. -/
structure Stuck (cs : List Char) : Prop where
  digit : ∃ c ∈ cs.head?, isDecimalDigit c = true
  no_integer : ∀ t rest, cs = t ++ rest → IsInteger t → endsWord rest = false

theorem firstMatch?_eq_none {cs : List Char} : firstMatch? cs = none ↔ ∀ p ∈ patterns, p.2 cs = none := by
  rw [firstMatch?, List.findSome?_eq_none_iff]
  simp only [Option.map_eq_none_iff]

/-- The patterns that are not for integers match no digit. -/
theorem firstMatch?_digit {c : Char} (hc : isDecimalDigit c = true) (cs : List Char) :
    firstMatch? (c :: cs) = none ↔ markedInteger (c :: cs) = none ∧ decimalInteger (c :: cs) = none := by
  have hword := isWordChar_of_isDecimalDigit hc
  have hname : IsNameChar c := .inl hword
  have hblank := isWhiteSpace_of_isWordChar hword
  have hne {d : Char} (hd : isDecimalDigit d = false) : c ≠ d := by
    rintro rfl
    rw [hc] at hd
    cases hd
  have hletter : isLetter c = false := by
    rw [Bool.eq_false_iff]
    intro halpha
    rw [(isAlpha_classes halpha).2.2] at hc
    cases hc
  have hpointer : isPointerLetter c = false := by
    rw [Bool.eq_false_iff]
    intro h
    rcases isPointerLetter_cases h with rfl | rfl | rfl <;> exact absurd hc (by decide)
  have hlabel : label (c :: cs) = none := by
    unfold label
    dsimp only
    rw [hletter, beq_false_of_ne (hne (by decide)), Bool.or_self, Bool.false_and, if_neg Bool.false_ne_true]
  have hmnemonic : mnemonic (c :: cs) = none := by
    unfold mnemonic run
    dsimp only
    rw [List.takeWhile_cons_of_neg (by rw [hletter]; exact Bool.false_ne_true)]
    rfl
  have hsingle : pointer (c :: cs) = none := by
    unfold pointer
    dsimp only
    rw [hpointer, if_neg Bool.false_ne_true]
  have hlast : name (c :: cs) = none := by
    unfold name
    dsimp only
    rw [hc, Bool.or_true, if_pos rfl]
  rw [firstMatch?_eq_none]
  simp only [patterns, List.forall_mem_cons]
  constructor
  · rintro ⟨-, -, -, -, -, -, hmarked, hdecimal, -⟩
    exact ⟨hmarked, hdecimal⟩
  · rintro ⟨hmarked, hdecimal⟩
    exact ⟨comment_eq_none (hne (by decide)), blanks_eq_none hblank, hlabel,
      keyword_eq_none (hne (by decide)) (hne (by decide)), keyword_eq_none (hne (by decide)) (hne (by decide)),
      register_eq_none (hne (by decide)) (hne (by decide)), hmarked, hdecimal, hmnemonic,
      str_name hname (by decide) (by decide) cs, str_name hname (by decide) (by decide) cs,
      directive_name (hne (by decide)) cs, displaced_eq_none (hne (by decide)) (hne (by decide)),
      incremented_eq_none hpointer, decremented_name hname cs, hsingle, comma_name hname cs, sign_name hname cs,
      symbol_name hword cs, hlast, by simp⟩

theorem stuck_iff {cs : List Char} : Stuck cs ↔
    (∃ c ∈ cs.head?, isDecimalDigit c = true) ∧ markedInteger cs = none ∧ decimalInteger cs = none := by
  rw [integers_eq_none_iff]
  exact ⟨fun h => ⟨h.digit, h.no_integer⟩, fun h => ⟨h.1, h.2⟩⟩

/-- No pattern matches just where a digit starts no literal that ends with its word. -/
theorem firstMatch?_eq_none_iff {c : Char} {cs : List Char} : firstMatch? (c :: cs) = none ↔ Stuck (c :: cs) := by
  constructor
  · intro h
    have hdigit : isDecimalDigit c = true := by
      have hlast : name (c :: cs) = none := firstMatch?_eq_none.1 h (some .ref, name) (by simp [patterns])
      have hblank : isWhiteSpace c = false := by
        rw [Bool.eq_false_iff]
        intro hc
        rw [firstMatch?_of_blank hc] at h
        cases h
      unfold name at hlast
      dsimp only at hlast
      rw [hblank, Bool.false_or] at hlast
      split at hlast
      · next hc => exact hc
      · cases hlast
    exact stuck_iff.2 ⟨⟨c, rfl, hdigit⟩, (firstMatch?_digit hdigit cs).1 h⟩
  · intro h
    obtain ⟨⟨d, ⟨⟩, hdigit⟩, hintegers⟩ := stuck_iff.1 h
    exact (firstMatch?_digit hdigit cs).2 hintegers

theorem Stuck.firstPiece_eq {cs : List Char} (h : Stuck cs) : firstPiece cs = cs.takeWhile (!isWhiteSpace ·) := by
  obtain ⟨c, hc, hdigit⟩ := h.digit
  have hblank := isWhiteSpace_of_isWordChar (isWordChar_of_isDecimalDigit hdigit)
  cases cs with
  | nil => cases hc
  | cons d ds =>
    cases hc
    rw [firstPiece, List.dropWhile_cons_of_neg (by rw [hblank]; exact Bool.false_ne_true)]

/-! ## Rounds -/

/-- When so many patterns have matched one after another, `before` has been taken from the text and `rest` is left. -/
inductive Reaches : List Char → Nat → List Char → List Char → Prop
  | here {cs : List Char} : Reaches cs 0 [] cs
  | round {cs before rest : List Char} {kind? : Option Kind} {n r : Nat} (hmatch : firstMatch? cs = some (kind?, n))
      (h : Reaches (cs.drop n) r before rest) : Reaches cs (r + 1) (cs.take n ++ before) rest

theorem Reaches.append {cs before rest : List Char} {r : Nat} (h : Reaches cs r before rest) : cs = before ++ rest := by
  induction h with
  | here => rfl
  | @round cs before rest kind? n r hmatch h ih => rw [List.append_assoc, ← ih, List.take_append_drop]

/-- Every round takes a character at least. -/
theorem Reaches.rounds_le {cs before rest : List Char} {r : Nat} (h : Reaches cs r before rest) :
    r ≤ before.length := by
  induction h with
  | here => exact Nat.le_refl 0
  | @round cs before rest kind? n r hmatch h ih =>
    obtain ⟨hpos, hle⟩ := firstMatch?_advances hmatch
    rw [List.length_append, List.length_take, Nat.min_eq_left hle]
    omega

/-- The pieces of a text where a pattern matches are those behind it, and one in front if it is for a token. -/
theorem scan_round {cs : List Char} {kind? : Option Kind} {n : Nat} (h : firstMatch? cs = some (kind?, n))
    (line col : Nat) : scan line col cs = (scan line (col + byteLength (cs.take n)) (cs.drop n)).map fun pieces =>
      kind?.toList.map (⟨·, cs.take n, col⟩) ++ pieces := by
  obtain ⟨hpos, hle⟩ := firstMatch?_advances h
  obtain ⟨m, rfl⟩ := Nat.exists_eq_succ_of_ne_zero (Nat.ne_of_gt hpos)
  have hne : ¬ cs.isEmpty = true := by
    rw [List.isEmpty_iff]
    rintro rfl
    cases hle
  rw [scan, if_neg hne, h]
  dsimp only
  cases scan line (col + byteLength (cs.take (m + 1))) (cs.drop (m + 1)) with
  | error d => rfl
  | ok pieces => cases kind? <;> rfl

theorem scan_stuck {cs : List Char} (h : Stuck cs) (line col : Nat) : scan line col cs =
    .error (.located ⟨line, col⟩ (.lexical (.unmatched (String.ofList (cs.takeWhile (!isWhiteSpace ·)))))) := by
  cases cs with
  | nil =>
    obtain ⟨c, hc, -⟩ := h.digit
    cases hc
  | cons c cs =>
    rw [scan, if_neg (by simp), firstMatch?_eq_none_iff.2 h]
    dsimp only
    rw [h.firstPiece_eq]

/-- Scanning comes to the end of the text, or to a place where it is stuck. By induction on the length of what is
left. -/
theorem reaches_end_or_stuck (cs : List Char) :
    ∃ r before rest, Reaches cs r before rest ∧ (rest = [] ∨ Stuck rest) := by
  induction hn : cs.length using Nat.strongRecOn generalizing cs with
  | ind k ih =>
    cases cs with
    | nil => exact ⟨0, [], [], .here, .inl rfl⟩
    | cons c cs =>
      cases hmatch : firstMatch? (c :: cs) with
      | none => exact ⟨0, [], c :: cs, .here, .inr (firstMatch?_eq_none_iff.1 hmatch)⟩
      | some p =>
        obtain ⟨kind?, n⟩ := p
        obtain ⟨hpos, hle⟩ := firstMatch?_advances hmatch
        have hlt : ((c :: cs).drop n).length < k := by
          rw [List.length_drop]
          omega
        obtain ⟨r, before, rest, hreaches, hrest⟩ := ih _ hlt _ rfl
        exact ⟨r + 1, _, rest, .round hmatch hreaches, hrest⟩

/-- Where scanning is stuck it fails, at the column behind what it has taken. -/
theorem scan_of_stuck {cs before rest : List Char} {r : Nat} (h : Reaches cs r before rest) (hrest : Stuck rest)
    (line col : Nat) : scan line col cs = .error (.located ⟨line, col + byteLength before⟩
      (.lexical (.unmatched (String.ofList (rest.takeWhile (!isWhiteSpace ·)))))) := by
  induction h generalizing col with
  | here => exact scan_stuck hrest line col
  | @round cs before rest kind? n r hmatch h ih =>
    rw [scan_round hmatch, ih hrest, byteLength_append, Nat.add_assoc]
    rfl

theorem scan_of_end {cs before rest : List Char} {r : Nat} (h : Reaches cs r before rest) (hrest : rest = [])
    (line col : Nat) : ∃ pieces, scan line col cs = .ok pieces := by
  induction h generalizing col with
  | here => exact ⟨[], by rw [hrest, scan_nil]⟩
  | @round cs before rest kind? n r hmatch h ih =>
    obtain ⟨pieces, hpieces⟩ := ih hrest (col + byteLength (cs.take n))
    rw [scan_round hmatch, hpieces]
    exact ⟨_, rfl⟩

/-- Scanning a line ends, as every round takes a character at least. It fails just where it comes to a digit that starts
no integer literal which ends with its word; the error is there and names the text up to the next white space. Any other
text that is not empty is matched by a pattern. -/
theorem scan_stops (line : Nat) (cs : List Char) :
    (∀ ts kind? n, firstMatch? ts = some (kind?, n) → 0 < n ∧ n ≤ ts.length) ∧
    (∀ r before rest, Reaches cs r before rest → cs = before ++ rest ∧ r ≤ before.length) ∧
    (∀ d, scan line 1 cs = .error d ↔ ∃ r before rest, Reaches cs r before rest ∧ Stuck rest ∧
      d = .located ⟨line, 1 + byteLength before⟩
        (.lexical (.unmatched (String.ofList (rest.takeWhile (!isWhiteSpace ·)))))) ∧
    ((∃ pieces, scan line 1 cs = .ok pieces) ↔ ∃ r, Reaches cs r cs []) ∧
    (∀ ts, Stuck ts ↔
      (∃ c ∈ ts.head?, isDecimalDigit c = true) ∧ markedInteger ts = none ∧ decimalInteger ts = none) ∧
    ∀ c ts, firstMatch? (c :: ts) = none ↔ Stuck (c :: ts) := by
  refine ⟨fun ts kind? n => firstMatch?_advances, fun r before rest h => ⟨h.append, h.rounds_le⟩, fun d => ?_, ?_,
    fun ts => stuck_iff, fun c ts => firstMatch?_eq_none_iff⟩
  · constructor
    · intro h
      obtain ⟨r, before, rest, hreaches, hrest | hrest⟩ := reaches_end_or_stuck cs
      · obtain ⟨pieces, hpieces⟩ := scan_of_end hreaches hrest line 1
        rw [hpieces] at h
        cases h
      · rw [scan_of_stuck hreaches hrest] at h
        exact ⟨r, before, rest, hreaches, hrest, (Except.error.inj h).symm⟩
    · rintro ⟨r, before, rest, hreaches, hrest, rfl⟩
      exact scan_of_stuck hreaches hrest line 1
  · constructor
    · rintro ⟨pieces, h⟩
      obtain ⟨r, before, rest, hreaches, rfl | hrest⟩ := reaches_end_or_stuck cs
      · have hbefore := hreaches.append
        rw [List.append_nil] at hbefore
        exact ⟨r, hbefore ▸ hreaches⟩
      · rw [scan_of_stuck hreaches hrest] at h
        cases h
    · rintro ⟨r, hreaches⟩
      exact scan_of_end hreaches rfl line 1

/-- On the line `R1 9z` scanning is stuck behind two rounds. -/
theorem scan_stops_digit :
    Reaches ['R', '1', ' ', '9', 'z'] 2 ['R', '1', ' '] ['9', 'z'] ∧ Stuck ['9', 'z'] ∧
    scan 7 1 ['R', '1', ' ', '9', 'z'] = .error (.located ⟨7, 4⟩ (.lexical (.unmatched "9z"))) := by
  obtain ⟨-, -, hfails, -, -, hstuck⟩ := scan_stops 7 ['R', '1', ' ', '9', 'z']
  have hblank : Reaches [' ', '9', 'z'] 1 [' '] ['9', 'z'] :=
    @Reaches.round [' ', '9', 'z'] [] ['9', 'z'] none 1 0 (by decide +kernel) .here
  have hreaches : Reaches ['R', '1', ' ', '9', 'z'] 2 ['R', '1', ' '] ['9', 'z'] :=
    @Reaches.round ['R', '1', ' ', '9', 'z'] [' '] ['9', 'z'] (some .reg) 2 1 (by decide +kernel) hblank
  have hdigit : Stuck ['9', 'z'] := (hstuck '9' ['z']).1 (by decide +kernel)
  have hbytes : byteLength ['R', '1', ' '] = 3 := by decide +kernel
  have hname : String.ofList (['9', 'z'].takeWhile (!isWhiteSpace ·)) = "9z" := by decide +kernel
  refine ⟨hreaches, hdigit, (hfails _).2 ⟨2, _, _, hreaches, hdigit, ?_⟩⟩
  rw [hbytes, hname]

end Avr.Lexer

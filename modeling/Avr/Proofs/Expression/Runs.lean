import Mathlib.Data.List.TakeWhile
import Avr.Proofs.Layout.Reference

/-!
# Runs of integers and symbols

* `Run`, `Piece`, `Cut` : a token list cut into runs, of which no two are next to each other, and the tokens between
  them; `exists_cut` : every list is cut in this way;
* `Piece.Becomes` : a run becomes its value, another token stays;
* `evaluate_eq_mapM` : expressions are replaced piece by piece;
* `evaluate_settled` : a list without symbols and without two integers next to each other stays as it is;
* `evaluate_cut` : what comes of a list, when it fails, and that it stays as it is the second time.
-/

namespace Avr.Expr

/-! ## Cutting -/

/-- Integers and symbols in a row. -/
structure Run where
  first : Token
  more : List Token
  inAlphabet : ∀ t ∈ first :: more, inAlphabet t = true

namespace Run

def tokens (r : Run) : List Token := r.first :: r.more

/-- The run comes to the integer `u`, which stands where the run starts. A run of one integer is that integer. -/
def Becomes (r : Run) (u : Token) : Prop :=
  ∃ v, evaluateSingle r.tokens = .ok v ∧ u.lexeme = .int v ∧ u.loc = r.first.loc ∧
    if r.more = [] ∧ r.first.kind = .int then u = r.first else u = .ofInt v r.first.loc

end Run

inductive Piece
  | run (r : Run)
  | other (t : Token) (h : inAlphabet t = false)

namespace Piece

def tokens : Piece → List Token
  | run r => r.tokens
  | other t _ => [t]

inductive Becomes : Piece → Token → Prop
  | run {r : Run} {u : Token} (h : r.Becomes u) : Becomes (run r) u
  | other {t : Token} {h : inAlphabet t = false} : Becomes (other t h) t

/-- One of two pieces is no run. -/
def Apart : Piece → Piece → Prop
  | run _, run _ => False
  | _, _ => True

end Piece

/-- The list is cut into its longest runs and the tokens between them. -/
structure Cut (ts : List Token) (pieces : List Piece) : Prop where
  tokens : ts = pieces.flatMap Piece.tokens
  apart : pieces.IsChain Piece.Apart

/-- Every list is cut into runs and other tokens. By induction as the list is read: a run is read up to its end. -/
theorem exists_cut (ts : List Token) : ∃ pieces, Cut ts pieces := by
  induction ts using evaluate.induct with
  | case1 => exact ⟨[], rfl, .nil⟩
  | case2 t ts ht ih =>
    obtain ⟨pieces, htokens, hapart⟩ := ih
    have hall : ∀ u ∈ t :: ts.takeWhile inAlphabet, inAlphabet u = true :=
      List.forall_mem_cons.2 ⟨ht, fun u hu => List.mem_takeWhile_imp hu⟩
    refine ⟨.run ⟨t, ts.takeWhile inAlphabet, hall⟩ :: pieces, ?_, ?_⟩
    · rw [List.flatMap_cons, ← htokens]
      show _ = t :: (ts.takeWhile inAlphabet ++ ts.dropWhile inAlphabet)
      rw [List.takeWhile_append_dropWhile]
    · cases pieces with
      | nil => exact .singleton _
      | cons piece pieces =>
        refine .cons_cons ?_ hapart
        cases piece with
        | other u hu => trivial
        | run r =>
          have hhead : (ts.dropWhile inAlphabet).head? = some r.first := by rw [htokens]; rfl
          have hend := List.head?_dropWhile_not inAlphabet ts
          rw [hhead] at hend
          exact absurd (r.inAlphabet r.first List.mem_cons_self) (by simpa using hend)
  | case3 t ts ht ih =>
    obtain ⟨pieces, rfl, hapart⟩ := ih
    refine ⟨.other t (Bool.eq_false_iff.2 ht) :: pieces, rfl, ?_⟩
    cases pieces with
    | nil => exact .singleton _
    | cons piece pieces => exact .cons_cons trivial hapart

/-! ## Piece by piece -/

def Piece.result : Piece → Except Diagnostic Token
  | run r => collapse r.first r.more
  | other t _ => .ok t

theorem lexeme_of_kind_int {t : Token} (h : t.kind = .int) : ∃ v, t.lexeme = .int v := by
  unfold Token.kind Lexeme.kind at h
  split at h <;> simp_all

/-- A run comes to an integer, or it has no value and fails where it starts. -/
theorem collapse_cases (r : Run) : (∃ u, r.Becomes u ∧ collapse r.first r.more = .ok u) ∨
    ∃ e, evaluateSingle r.tokens = .error e ∧
      collapse r.first r.more = .error (.located r.first.loc (.expression e)) := by
  unfold collapse
  simp only [List.isEmpty_iff]
  by_cases hsingle : r.more = [] ∧ r.first.kind = .int
  · rw [if_pos hsingle]
    obtain ⟨v, hv⟩ := lexeme_of_kind_int hsingle.2
    have hvalue : evaluateSingle r.tokens = .ok v := by
      rw [Run.tokens, hsingle.1]
      exact evaluateSingle_int hv
    refine .inl ⟨r.first, ⟨v, hvalue, hv, rfl, ?_⟩, rfl⟩
    rw [if_pos hsingle]
  · rw [if_neg hsingle]
    cases hvalue : evaluateSingle (r.first :: r.more) with
    | ok v =>
      refine .inl ⟨.ofInt v r.first.loc, ⟨v, hvalue, rfl, rfl, ?_⟩, rfl⟩
      rw [if_neg hsingle]
    | error e => exact .inr ⟨e, hvalue, rfl⟩

theorem Run.Becomes.unique {r : Run} {u u' : Token} (h : r.Becomes u) (h' : r.Becomes u') : u = u' := by
  obtain ⟨v, hv, -, -, hu⟩ := h
  obtain ⟨v', hv', -, -, hu'⟩ := h'
  obtain rfl := Except.ok.inj (hv.symm.trans hv')
  split at hu
  · next hsingle =>
    rw [if_pos hsingle] at hu'
    rw [hu, hu']
  · next hsingle =>
    rw [if_neg hsingle] at hu'
    rw [hu, hu']

theorem Piece.result_eq_ok_iff {p : Piece} {u : Token} : p.result = .ok u ↔ p.Becomes u := by
  cases p with
  | other t ht =>
    constructor
    · intro h
      cases h
      exact .other
    · rintro ⟨⟩
      rfl
  | run r =>
    show collapse r.first r.more = .ok u ↔ _
    rcases collapse_cases r with ⟨u', hu', hok⟩ | ⟨e, hvalue, herror⟩
    · rw [hok]
      constructor
      · rintro ⟨⟩
        exact .run hu'
      · rintro ⟨hu⟩
        rw [hu'.unique hu]
    · rw [herror]
      constructor
      · nofun
      · rintro ⟨v, hv, -⟩
        rw [hvalue] at hv
        cases hv

theorem Piece.result_eq_error_iff {p : Piece} {d : Diagnostic} : p.result = .error d ↔
    ∃ r e, p = .run r ∧ evaluateSingle r.tokens = .error e ∧ d = .located r.first.loc (.expression e) := by
  cases p with
  | other t ht => exact ⟨nofun, nofun⟩
  | run r =>
    show collapse r.first r.more = .error d ↔ _
    rcases collapse_cases r with ⟨u, ⟨v, hvalue, -⟩, hok⟩ | ⟨e, hvalue, herror⟩
    · rw [hok]
      constructor
      · nofun
      · rintro ⟨r', e, ⟨⟩, he, -⟩
        rw [hvalue] at he
        cases he
    · rw [herror]
      constructor
      · rintro ⟨⟩
        exact ⟨r, e, rfl, hvalue, rfl⟩
      · rintro ⟨r', e', ⟨⟩, he', rfl⟩
        obtain rfl := Except.error.inj (hvalue.symm.trans he')
        rfl

/-! ## All pieces -/

theorem span_of_apart {r : Run} {pieces : List Piece} (h : (Piece.run r :: pieces).IsChain Piece.Apart) :
    (r.more ++ pieces.flatMap Piece.tokens).takeWhile inAlphabet = r.more ∧
      (r.more ++ pieces.flatMap Piece.tokens).dropWhile inAlphabet = pieces.flatMap Piece.tokens := by
  have hmore : ∀ t ∈ r.more, inAlphabet t = true := (List.forall_mem_cons.1 r.inAlphabet).2
  rw [List.takeWhile_append_of_pos hmore, List.dropWhile_append_of_pos hmore]
  cases pieces with
  | nil => exact ⟨List.append_nil _, rfl⟩
  | cons piece pieces =>
    cases piece with
    | run q => exact (List.isChain_cons_cons.1 h).1.elim
    | other t ht =>
      have hnot : ¬ inAlphabet t = true := by rw [ht]; exact Bool.false_ne_true
      show r.more ++ (t :: pieces.flatMap Piece.tokens).takeWhile inAlphabet = _ ∧
        (t :: pieces.flatMap Piece.tokens).dropWhile inAlphabet = t :: _
      rw [List.takeWhile_cons_of_neg hnot, List.dropWhile_cons_of_neg hnot]
      exact ⟨List.append_nil _, rfl⟩

/-- Expressions are replaced piece by piece. -/
theorem evaluate_eq_mapM {pieces : List Piece} (h : pieces.IsChain Piece.Apart) :
    evaluate (pieces.flatMap Piece.tokens) = pieces.mapM Piece.result := by
  induction pieces with
  | nil => rw [List.flatMap_nil, evaluate]; rfl
  | cons piece pieces ih =>
    rw [List.mapM_cons, ← ih h.tail]
    cases piece with
    | run r =>
      obtain ⟨htake, hdrop⟩ := span_of_apart h
      show evaluate (r.first :: (r.more ++ pieces.flatMap Piece.tokens)) = _
      rw [evaluate, if_pos (r.inAlphabet _ List.mem_cons_self), htake, hdrop]
      rfl
    | other t ht =>
      show evaluate (t :: pieces.flatMap Piece.tokens) = _
      rw [evaluate_cons_other ht]
      cases evaluate (pieces.flatMap Piece.tokens) <;> rfl

/-! ## The second time -/

def NotBothInt (t u : Token) : Prop := ¬ (t.kind = .int ∧ u.kind = .int)

theorem Piece.Becomes.kind {p : Piece} {u : Token} (h : p.Becomes u) :
    u.kind = .int ∨ inAlphabet u = false := by
  cases h with
  | run h =>
    obtain ⟨v, -, hv, -⟩ := h
    exact .inl (by rw [Token.kind, hv]; rfl)
  | @other t ht => exact .inr ht

theorem ne_of_not_inAlphabet {t : Token} (h : inAlphabet t = false) : t.kind ≠ .int ∧ t.kind ≠ .math := by
  rw [inAlphabet, Bool.or_eq_false_iff] at h
  exact ⟨ne_of_beq_false h.1, ne_of_beq_false h.2⟩

/-- Between two runs there is a token of neither. -/
theorem notBothInt_of_apart {p q : Piece} {t u : Token} (h : p.Apart q) (hp : p.Becomes t) (hq : q.Becomes u) :
    NotBothInt t u := by
  rintro ⟨ht, hu⟩
  cases hp with
  | @other t hout => exact (ne_of_not_inAlphabet hout).1 ht
  | run hp =>
    cases hq with
    | @other u hout => exact (ne_of_not_inAlphabet hout).1 hu
    | run hq => exact h

theorem isChain_notBothInt {pieces : List Piece} {ts : List Token} (h : pieces.IsChain Piece.Apart)
    (hts : List.Forall₂ Piece.Becomes pieces ts) : ts.IsChain NotBothInt := by
  induction hts with
  | nil => exact .nil
  | cons hp hrest ih =>
    cases hrest with
    | nil => exact .singleton _
    | cons hq hrest =>
      obtain ⟨hapart, hchain⟩ := List.isChain_cons_cons.1 h
      exact .cons_cons (notBothInt_of_apart hapart hp hq) (ih hchain)

/-- A list without symbols and without two integers next to each other stays as it is. -/
theorem evaluate_settled {ts : List Token} (hmath : ∀ t ∈ ts, t.kind ≠ .math) (hint : ts.IsChain NotBothInt) :
    evaluate ts = .ok ts := by
  induction ts with
  | nil => rw [evaluate]
  | cons t ts ih =>
    have hrest := ih (List.forall_mem_cons.1 hmath).2 hint.tail
    cases ht : inAlphabet t with
    | false =>
      rw [evaluate_cons_other ht, hrest]
      rfl
    | true =>
      have hkind : t.kind = .int := by
        rw [inAlphabet, Bool.or_eq_true] at ht
        exact eq_of_beq (ht.resolve_right fun h => (List.forall_mem_cons.1 hmath).1 (eq_of_beq h))
      have hends : ts.takeWhile inAlphabet = [] ∧ ts.dropWhile inAlphabet = ts := by
        cases ts with
        | nil => exact ⟨rfl, rfl⟩
        | cons u us =>
          have hu : ¬ inAlphabet u = true := by
            rw [inAlphabet, Bool.or_eq_true]
            rintro (h | h)
            · exact (List.isChain_cons_cons.1 hint).1 ⟨hkind, eq_of_beq h⟩
            · exact hmath u (by simp) (eq_of_beq h)
          exact ⟨List.takeWhile_cons_of_neg hu, List.dropWhile_cons_of_neg hu⟩
      rw [evaluate, if_pos ht, hends.1, hends.2, hrest, collapse, if_pos ⟨rfl, hkind⟩]
      rfl

/-- A list is cut into its longest runs and the tokens between them. If it has a result, every run has become one
integer and the other tokens have stayed; there are no symbols and no two integers next to each other, and nothing
changes the second time. It fails if a run does, with the error of the first one, where that run starts. -/
theorem evaluate_cut (ts : List Token) :
    (∃ pieces, Cut ts pieces) ∧
    ∀ pieces, Cut ts pieces →
      (∀ us, evaluate ts = .ok us ↔ List.Forall₂ Piece.Becomes pieces us) ∧
      (∀ d, evaluate ts = .error d ↔ ∃ before r after e, pieces = before ++ .run r :: after ∧
        (∀ p ∈ before, ∃ u, p.Becomes u) ∧ evaluateSingle r.tokens = .error e ∧
        d = .located r.first.loc (.expression e)) ∧
      ∀ us, evaluate ts = .ok us →
        (∀ u ∈ us, u.kind ≠ .math) ∧ us.IsChain NotBothInt ∧ evaluate us = .ok us := by
  refine ⟨exists_cut ts, ?_⟩
  rintro pieces ⟨rfl, hapart⟩
  have hok (us : List Token) :
      evaluate (pieces.flatMap Piece.tokens) = .ok us ↔ List.Forall₂ Piece.Becomes pieces us := by
    rw [evaluate_eq_mapM hapart, mapM_eq_ok_iff]
    simp only [Piece.result_eq_ok_iff]
  refine ⟨hok, fun d => ?_, fun us hus => ?_⟩
  · rw [evaluate_eq_mapM hapart, mapM_eq_error_iff]
    simp only [Piece.result_eq_ok_iff, Piece.result_eq_error_iff]
    constructor
    · rintro ⟨before, p, after, hpieces, hbefore, r, e, rfl, he, hd⟩
      exact ⟨before, r, after, e, hpieces, hbefore, he, hd⟩
    · rintro ⟨before, r, after, e, hpieces, hbefore, he, hd⟩
      exact ⟨before, .run r, after, hpieces, hbefore, r, e, rfl, he, hd⟩
  · have hbecomes := (hok us).1 hus
    have hmath : ∀ u ∈ us, u.kind ≠ .math := by
      refine forall_of_forall₂_right (fun p u hp => ?_) hbecomes
      rcases hp.kind with hkind | hout
      · rw [hkind]
        nofun
      · exact (ne_of_not_inAlphabet hout).2
    have hint := isChain_notBothInt hapart hbecomes
    exact ⟨hmath, hint, evaluate_settled hmath hint⟩

/-- The list `1+2, -3`, in which the sign is an operator. -/
def twoRuns : List Piece := [
  .run ⟨⟨.int 1, "1", ⟨1, 1⟩⟩, [⟨.sign (.op .add), "+", ⟨1, 2⟩⟩, ⟨.int 2, "2", ⟨1, 3⟩⟩], by decide⟩,
  .other ⟨.comma, ",", ⟨1, 4⟩⟩ rfl,
  .run ⟨⟨.sign (.op .sub), "-", ⟨1, 6⟩⟩, [⟨.int 3, "3", ⟨1, 7⟩⟩], by decide⟩]

theorem evaluate_cut_twoRuns :
    Cut (twoRuns.flatMap Piece.tokens) twoRuns ∧
    evaluate (twoRuns.flatMap Piece.tokens) =
      .ok [⟨.int 3, "3", ⟨1, 1⟩⟩, ⟨.comma, ",", ⟨1, 4⟩⟩, ⟨.int (-3), "-3", ⟨1, 6⟩⟩] ∧
    evaluate [⟨.int 3, "3", ⟨1, 1⟩⟩, ⟨.comma, ",", ⟨1, 4⟩⟩, ⟨.int (-3), "-3", ⟨1, 6⟩⟩] =
      .ok [⟨.int 3, "3", ⟨1, 1⟩⟩, ⟨.comma, ",", ⟨1, 4⟩⟩, ⟨.int (-3), "-3", ⟨1, 6⟩⟩] := by
  have hcut : Cut (twoRuns.flatMap Piece.tokens) twoRuns :=
    ⟨rfl, .cons_cons trivial (.cons_cons trivial (.singleton _))⟩
  have hsum : evaluateSingle [⟨.int 1, "1", ⟨1, 1⟩⟩, ⟨.sign (.op .add), "+", ⟨1, 2⟩⟩, ⟨.int 2, "2", ⟨1, 3⟩⟩] = .ok 3 :=
    evaluateSingle_of_written (e := .binary .add (.lit ⟨1, rfl⟩) (.lit ⟨2, rfl⟩))
      (@Written.binary _ _ _ _ _ [_] [_] (by decide) (.lit rfl) rfl (.lit rfl))
  have hminus : evaluateSingle [⟨.sign (.op .sub), "-", ⟨1, 6⟩⟩, ⟨.int 3, "3", ⟨1, 7⟩⟩] = .ok (-3) :=
    evaluateSingle_of_written (e := .unary .negate (.lit ⟨3, rfl⟩)) (@Written.unary _ _ _ _ [_] rfl (.lit rfl))
  obtain ⟨hok, -, hsettled⟩ := (evaluate_cut _).2 twoRuns hcut
  have hus : evaluate (twoRuns.flatMap Piece.tokens) =
      .ok [⟨.int 3, "3", ⟨1, 1⟩⟩, ⟨.comma, ",", ⟨1, 4⟩⟩, ⟨.int (-3), "-3", ⟨1, 6⟩⟩] :=
    (hok _).2 (.cons (.run ⟨3, hsum, rfl, rfl, rfl⟩) (.cons .other (.cons (.run ⟨-3, hminus, rfl, rfl, rfl⟩) .nil)))
  exact ⟨hcut, hus, (hsettled _ hus).2.2⟩

end Avr.Expr

import Avr.Proofs.Results
import Avr.Proofs.Token.Line

/-!
# How argument lists are split

* `ValuesOf` : the values of an argument list, which has one comma between any two of them;
* `split_eq_ok_iff` : a list is split into its values, from its start or behind a value on;
* `ValuesOf.sublist`, `ValuesOf.getLast?` : the values stand in the list in their order, and it ends in the last one;
* `Separates`, `joined` : values with one comma between any two of them; `valuesOf_iff_joined` : the lists that are
  split are the empty one and the joined ones;
* `Due` : a token that may stand at its place; `Spoils` : the token that keeps a list from being split;
* `split_eq_error_iff` : what is reported of a list is the token that spoils it, from an even or an odd place on;
* `splitArgs_exact` : splitting accepts exactly the joined lists and reports the token that spoils any other.
-/

namespace Avr

/-! ## Values and commas -/

/-- The values of an argument list: it has a single comma between any two of them and nothing else. -/
def ValuesOf (ts args : List Token) : Prop :=
  Alternates (fun v t => t = v ∧ v.kind ≠ .comma) (fun c => c.kind = .comma) ts args

theorem ValuesOf.head {t : Token} {ts vs : List Token} (h : ValuesOf vs (t :: ts)) :
    t.kind ≠ .comma ∧ ∃ us, vs = t :: us := by
  cases h with
  | one hv =>
    obtain ⟨rfl, ht⟩ := hv
    exact ⟨ht, [], rfl⟩
  | cons hv _ _ =>
    obtain ⟨rfl, ht⟩ := hv
    exact ⟨ht, _, rfl⟩

/-- An argument list is split into its values. By induction on the list, for the lists that start with a value and
those that go on behind one. -/
theorem split_eq_ok_iff (ts : List Token) :
    (∀ vs, splitValues ts = .ok vs ↔ ValuesOf vs ts) ∧
      ∀ v, v.kind ≠ .comma → ∀ vs, splitCommas ts = .ok vs ↔ ValuesOf (v :: vs) (v :: ts) := by
  induction ts with
  | nil =>
    refine ⟨fun vs => ⟨fun h => ?_, fun h => ?_⟩, fun v hv vs => ⟨fun h => ?_, fun h => ?_⟩⟩
    · cases h
      exact Alternates.nil
    · cases h
      rfl
    · cases h
      exact Alternates.one ⟨rfl, hv⟩
    · cases h
      rfl
  | cons u us ih =>
    constructor
    · intro vs
      rw [splitValues]
      split
      · next hu => exact iff_of_false (by simp) fun h => h.head.1 hu
      · next hu =>
        rw [map_eq_ok]
        constructor
        · rintro ⟨ws, hws, rfl⟩
          exact (ih.2 u hu ws).1 hws
        · intro h
          obtain ⟨-, ws, rfl⟩ := h.head
          exact ⟨ws, (ih.2 u hu ws).2 h, rfl⟩
    · intro v hv vs
      rw [splitCommas.eq_def]
      dsimp only
      split
      · next hu =>
        cases us with
        | nil =>
          refine iff_of_false (by simp) fun h => ?_
          cases h with
          | cons _ _ hrest => cases hrest
        | cons w ws =>
          rw [ih.1 vs]
          constructor
          · intro h
            obtain ⟨-, _, rfl⟩ := h.head
            exact Alternates.cons ⟨rfl, hv⟩ hu h
          · intro h
            cases h with
            | cons _ _ hrest => exact hrest
      · next hu =>
        refine iff_of_false (by simp) fun h => ?_
        cases h with
        | cons _ hc _ => exact hu hc

theorem splitArgs_eq_ok {args ts : List Token} : splitArgs args = .ok ts ↔ ValuesOf ts args :=
  (split_eq_ok_iff args).1 ts

theorem ValuesOf.sublist {ts args : List Token} (h : ValuesOf ts args) : ts.Sublist args := by
  induction h with
  | nil => exact .slnil
  | one hv =>
    obtain ⟨rfl, -⟩ := hv
    exact .refl _
  | cons hv _ _ ih =>
    obtain ⟨rfl, -⟩ := hv
    exact (ih.cons _).cons_cons _

theorem ValuesOf.getLast? {ts args : List Token} (h : ValuesOf ts args) : ts.getLast? = args.getLast? := by
  induction h with
  | nil => rfl
  | one hv =>
    obtain ⟨rfl, -⟩ := hv
    rfl
  | cons hv _ hrest ih =>
    cases hrest <;> exact ih

/-! ## Joined lists -/

structure Separates (cs vs : List Token) : Prop where
  length : vs.length = cs.length + 1
  commas : ∀ c ∈ cs, c.kind = .comma
  values : ∀ v ∈ vs, v.kind ≠ .comma

/-- The values in a row with the commas between them. -/
def joined : List Token → List Token → List Token
  | v :: vs, c :: cs => v :: c :: joined vs cs
  | vs, _ => vs

example (u v w c d : Token) : joined [u, v, w] [c, d] = [u, c, v, d, w] := rfl

/-- The argument lists with values are the empty one and the joined ones. -/
theorem valuesOf_iff_joined {ts vs : List Token} :
    ValuesOf vs ts ↔ (ts = [] ∧ vs = []) ∨ ∃ cs, Separates cs vs ∧ ts = joined vs cs := by
  constructor
  · intro h
    induction h with
    | nil => exact .inl ⟨rfl, rfl⟩
    | one hv =>
      obtain ⟨rfl, hv⟩ := hv
      refine .inr ⟨[], ⟨rfl, nofun, ?_⟩, rfl⟩
      rwa [List.forall_mem_singleton]
    | cons hv hc _ ih =>
      obtain ⟨rfl, hv⟩ := hv
      obtain ⟨-, hnil⟩ | ⟨cs, hcs, rfl⟩ := ih
      · cases hnil
      · exact .inr ⟨_ :: cs, ⟨congrArg (· + 1) hcs.length, List.forall_mem_cons.2 ⟨hc, hcs.commas⟩,
          List.forall_mem_cons.2 ⟨hv, hcs.values⟩⟩, rfl⟩
  · rintro (⟨rfl, rfl⟩ | ⟨cs, hcs, rfl⟩)
    · exact Alternates.nil
    · induction cs generalizing vs with
      | nil =>
        obtain ⟨v, rfl⟩ := List.length_eq_one_iff.1 hcs.length
        exact Alternates.one ⟨rfl, hcs.values v List.mem_cons_self⟩
      | cons c cs ih =>
        obtain _ | ⟨v, _ | ⟨u, vs⟩⟩ := vs
        · cases hcs.length
        · cases hcs.length
        · obtain ⟨hlength, hcommas, hvalues⟩ := hcs
          rw [List.forall_mem_cons] at hcommas hvalues
          exact Alternates.cons ⟨rfl, hvalues.1⟩ hcommas.1 (ih ⟨Nat.succ.inj hlength, hcommas.2, hvalues.2⟩)

/-! ## Lists that are not joined -/

/-- A token that may stand at place `n` of an argument list: a value at an even place, a comma at an odd one. -/
def Due (n : Nat) (t : Token) : Prop := t.kind = .comma ↔ n % 2 = 1

instance (n : Nat) (t : Token) : Decidable (Due n t) := inferInstanceAs (Decidable (_ ↔ _))

def AllDue (n : Nat) (ts : List Token) : Prop := ∀ p ∈ ts.zipIdx n, Due p.2 p.1

instance (n : Nat) (ts : List Token) : Decidable (AllDue n ts) := inferInstanceAs (Decidable (∀ p ∈ ts.zipIdx n, _))

/-- The token that keeps a list from being split, where the first one stands at place `n`: the first one that is not
due, or a comma that ends a list in which all are. -/
inductive Spoils (n : Nat) (ts : List Token) (t : Token) : Prop
  | early (before after : List Token) (hts : ts = before ++ t :: after) (hbefore : AllDue n before)
      (ht : ¬ Due (n + before.length) t)
  | last (hall : AllDue n ts) (hlast : ts.getLast? = some t) (hcomma : t.kind = .comma)

theorem allDue_cons {n : Nat} {t : Token} {ts : List Token} : AllDue n (t :: ts) ↔ Due n t ∧ AllDue (n + 1) ts := by
  unfold AllDue
  rw [List.zipIdx_cons, List.forall_mem_cons]

theorem not_spoils_nil {n : Nat} {t : Token} : ¬ Spoils n [] t := by
  rintro (⟨before, after, hts, -, -⟩ | ⟨-, hlast, -⟩)
  · exact List.append_ne_nil_of_right_ne_nil before (List.cons_ne_nil t after) hts.symm
  · cases hlast

theorem Spoils.mem {n : Nat} {ts : List Token} {t : Token} (h : Spoils n ts t) : t ∈ ts := by
  obtain ⟨before, after, rfl, -, -⟩ | ⟨-, hlast, -⟩ := h
  · exact List.mem_append_right before List.mem_cons_self
  · exact List.mem_of_getLast? hlast

/-- A list that starts with a token that is not due is spoiled by it. -/
theorem spoils_cons_of_not_due {n : Nat} {t u : Token} {ts : List Token} (ht : ¬ Due n t) :
    Spoils n (t :: ts) u ↔ u = t := by
  constructor
  · rintro (⟨before, after, hts, hbefore, -⟩ | ⟨hall, -, -⟩)
    · cases before with
      | nil =>
        cases hts
        rfl
      | cons b before =>
        cases hts
        exact absurd (allDue_cons.1 hbefore).1 ht
    · exact absurd (allDue_cons.1 hall).1 ht
  · rintro rfl
    exact .early [] ts rfl nofun ht

/-- A list that starts with a token that is due is spoiled by what spoils the rest, or by a comma that is all of it. -/
theorem spoils_cons_of_due {n : Nat} {t u : Token} {ts : List Token} (ht : Due n t) :
    Spoils n (t :: ts) u ↔ Spoils (n + 1) ts u ∨ ts = [] ∧ t.kind = .comma ∧ u = t := by
  constructor
  · rintro (⟨before, after, hts, hbefore, hu⟩ | ⟨hall, hlast, hcomma⟩)
    · cases before with
      | nil =>
        cases hts
        exact absurd ht hu
      | cons b before =>
        cases hts
        refine .inl (.early before after rfl (allDue_cons.1 hbefore).2 ?_)
        rwa [Nat.add_right_comm, Nat.add_assoc]
    · cases ts with
      | nil =>
        cases hlast
        exact .inr ⟨rfl, hcomma, rfl⟩
      | cons v ts => exact .inl (.last (allDue_cons.1 hall).2 hlast hcomma)
  · rintro ((⟨before, after, rfl, hbefore, hu⟩ | ⟨hall, hlast, hcomma⟩) | ⟨rfl, hcomma, rfl⟩)
    · refine .early (t :: before) after rfl (allDue_cons.2 ⟨ht, hbefore⟩) ?_
      rwa [List.length_cons, ← Nat.add_assoc, Nat.add_right_comm]
    · refine .last (allDue_cons.2 ⟨ht, hall⟩) ?_ hcomma
      rw [List.getLast?_cons, hlast]
      rfl
    · exact .last (allDue_cons.2 ⟨ht, nofun⟩) rfl hcomma

/-- The token that is reported is the one that spoils the list. By induction on the list, for the lists that start
with a value, at an even place, and those that go on behind one, at an odd place. -/
theorem split_eq_error_iff (ts : List Token) (t : Token) :
    (∀ n, n % 2 = 0 → (splitValues ts = .error t ↔ Spoils n ts t)) ∧
      ∀ n, n % 2 = 1 → (splitCommas ts = .error t ↔ Spoils n ts t) := by
  induction ts with
  | nil =>
    constructor
    · intro n _
      rw [splitValues]
      simp [not_spoils_nil]
    · intro n _
      rw [splitCommas]
      simp [not_spoils_nil]
  | cons u us ih =>
    constructor
    · intro n hn
      rw [splitValues]
      split
      · next hu =>
        rw [spoils_cons_of_not_due (by simp [Due, hu, hn]), Except.error.injEq]
        exact eq_comm
      · next hu =>
        rw [spoils_cons_of_due (by simp [Due, hu, hn]), map_eq_error, ih.2 (n + 1) (by omega)]
        simp [hu]
    · intro n hn
      rw [splitCommas.eq_def]
      dsimp only
      split
      · next hu =>
        rw [spoils_cons_of_due (by simp [Due, hu, hn])]
        cases us with
        | nil => simp [not_spoils_nil, hu, eq_comm]
        | cons v vs =>
          rw [ih.1 (n + 1) (by omega)]
          simp
      · next hu =>
        rw [spoils_cons_of_not_due (by simp [Due, hu, hn]), Except.error.injEq]
        exact eq_comm

/-! ## Splitting -/

theorem splitArgs_eq_ok_iff {ts vs : List Token} :
    splitArgs ts = .ok vs ↔ (ts = [] ∧ vs = []) ∨ ∃ cs, Separates cs vs ∧ ts = joined vs cs := by
  rw [splitArgs_eq_ok, valuesOf_iff_joined]

theorem splitArgs_eq_error_iff {ts : List Token} {t : Token} : splitArgs ts = .error t ↔ Spoils 0 ts t :=
  (split_eq_error_iff ts t).1 0 rfl

/-- An argument list is split exactly if it is empty or its values have one comma between any two of them, and then
into these values. Any other list is reported at the token that spoils it: the first one that breaks the alternation
of values and commas, or a comma at the end. So values that are joined by commas are given back. -/
theorem splitArgs_exact :
    (∀ ts vs, splitArgs ts = .ok vs ↔ (ts = [] ∧ vs = []) ∨ ∃ cs, Separates cs vs ∧ ts = joined vs cs) ∧
    (∀ ts t, splitArgs ts = .error t ↔ Spoils 0 ts t) ∧
    ∀ vs cs : List Token, vs ≠ [] → (∀ v ∈ vs, v.kind ≠ .comma) → (∀ c ∈ cs, c.kind = .comma) →
      cs.length + 1 = vs.length → splitArgs (joined vs cs) = .ok vs :=
  ⟨fun _ _ => splitArgs_eq_ok_iff, fun _ _ => splitArgs_eq_error_iff, fun _ cs _ hvalues hcommas hlength =>
    splitArgs_eq_ok_iff.2 (.inr ⟨cs, ⟨hlength.symm, hcommas, hvalues⟩, rfl⟩)⟩

def commaAt (col : Nat) : Token := ⟨.comma, ",", ⟨1, col⟩⟩

def registerAt (n col : Nat) : Token := ⟨.reg n, "R" ++ toString n, ⟨1, col⟩⟩

theorem splitArgs_exact_three :
    (∀ v ∈ [registerAt 16 1, registerAt 17 6, registerAt 18 11], v.kind ≠ .comma) ∧
      (∀ c ∈ [commaAt 4, commaAt 9], c.kind = .comma) ∧
      splitArgs [registerAt 16 1, commaAt 4, registerAt 17 6, commaAt 9, registerAt 18 11] =
        .ok [registerAt 16 1, registerAt 17 6, registerAt 18 11] ∧
      splitArgs [registerAt 16 1, commaAt 4, commaAt 9, registerAt 18 11] = .error (commaAt 9) ∧
      splitArgs [registerAt 16 1, commaAt 4] = .error (commaAt 4) := by
  have hvalues : ∀ v ∈ [registerAt 16 1, registerAt 17 6, registerAt 18 11], v.kind ≠ .comma := by decide
  have hcommas : ∀ c ∈ [commaAt 4, commaAt 9], c.kind = .comma := by decide
  have hspoils : Spoils 0 [registerAt 16 1, commaAt 4, commaAt 9, registerAt 18 11] (commaAt 9) :=
    .early [registerAt 16 1, commaAt 4] [registerAt 18 11] rfl (by decide) (by decide)
  exact ⟨hvalues, hcommas, splitArgs_exact.2.2 _ _ (List.cons_ne_nil _ _) hvalues hcommas rfl,
    (splitArgs_exact.2.1 _ _).2 hspoils, (splitArgs_exact.2.1 _ _).2 (.last (by decide) rfl rfl)⟩

end Avr

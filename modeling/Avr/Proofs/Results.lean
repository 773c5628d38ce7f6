import Mathlib.Data.List.Forall2
import Avr.Diagnostic

/-!
# Results that are values

* `bind_eq_ok`, `map_eq_ok`, `map_eq_error` : when a computation that may fail gives a value, or an error;
* `mapM_eq_ok_iff` : when one on every element of a list does; `mapM_append_eq_ok` : on two lists in a row;
* `mapM_append_eq_error`, `mapM_eq_error_iff` : how it fails at the first element at which it does;
* `foldlM_cons_eq_ok` : when one that goes through a list does, one element at a time;
* `Yields` : a value with a property, or an error with one; `Yields.bind`, `Yields.mapM`, `Yields.foldlM` : its rules;
* `forall₂_comp`, `forall₂_split`, `forall₂_append_left` : lists related element by element;
* `lookup_perm`, `lookup_of_mem` : tables without double keys.
-/

namespace Avr

variable {ε α β σ : Type}

theorem bind_eq_ok {x : Except ε α} {f : α → Except ε β} {b : β} :
    (x >>= f) = .ok b ↔ ∃ a, x = .ok a ∧ f a = .ok b := by
  cases x with
  | error e => simp [bind, Except.bind]
  | ok a => simp [bind, Except.bind]

theorem map_eq_ok {x : Except ε α} {f : α → β} {b : β} : x.map f = .ok b ↔ ∃ a, x = .ok a ∧ f a = b := by
  cases x with
  | error e => simp [Except.map]
  | ok a => simp [Except.map]

theorem map_eq_error {x : Except ε α} {f : α → β} {e : ε} : x.map f = .error e ↔ x = .error e := by
  cases x with
  | error e' => simp [Except.map]
  | ok a => simp [Except.map]

theorem pure_eq_ok {a b : α} : (pure a : Except ε α) = .ok b ↔ a = b := by simp [pure, Except.pure]

theorem mapM_eq_ok_iff {f : α → Except ε β} {l : List α} {r : List β} :
    l.mapM f = .ok r ↔ List.Forall₂ (fun a b => f a = .ok b) l r := by
  induction l generalizing r with
  | nil =>
    rw [List.mapM_nil, pure_eq_ok, List.forall₂_nil_left_iff]
    exact eq_comm
  | cons a l ih =>
    rw [List.mapM_cons, bind_eq_ok]
    constructor
    · rintro ⟨b, hb, h⟩
      obtain ⟨r', hr', h⟩ := bind_eq_ok.1 h
      rw [pure_eq_ok] at h
      subst h
      exact .cons hb (ih.1 hr')
    · intro h
      cases h with
      | cons hb h => exact ⟨_, hb, bind_eq_ok.2 ⟨_, ih.2 h, rfl⟩⟩

theorem foldlM_cons_eq_ok {f : σ → α → Except ε σ} {a : α} {l : List α} {s t : σ} :
    (a :: l).foldlM f s = .ok t ↔ ∃ u, f s a = .ok u ∧ l.foldlM f u = .ok t := by
  rw [List.foldlM_cons, bind_eq_ok]

theorem mapM_append_eq_ok {f : α → Except ε β} {l m : List α} {r : List β} :
    (l ++ m).mapM f = .ok r ↔ ∃ r₁ r₂, r = r₁ ++ r₂ ∧ l.mapM f = .ok r₁ ∧ m.mapM f = .ok r₂ := by
  rw [List.mapM_append, bind_eq_ok]
  constructor
  · rintro ⟨r₁, h₁, h⟩
    obtain ⟨r₂, h₂, h⟩ := bind_eq_ok.1 h
    rw [pure_eq_ok] at h
    exact ⟨r₁, r₂, h.symm, h₁, h₂⟩
  · rintro ⟨r₁, r₂, rfl, h₁, h₂⟩
    exact ⟨r₁, h₁, bind_eq_ok.2 ⟨r₂, h₂, rfl⟩⟩

theorem mapM_append_eq_error {f : α → Except ε β} {l m : List α} {a : α} {e : ε} (hl : ∀ b ∈ l, ∃ c, f b = .ok c)
    (ha : f a = .error e) : (l ++ a :: m).mapM f = .error e := by
  induction l with
  | nil =>
    rw [List.nil_append, List.mapM_cons, ha]
    rfl
  | cons b l ih =>
    rw [List.forall_mem_cons] at hl
    obtain ⟨c, hc⟩ := hl.1
    rw [List.cons_append, List.mapM_cons, hc, ih hl.2]
    rfl

/-- A computation on every element fails as it does on the first element on which it fails. -/
theorem mapM_eq_error_iff {f : α → Except ε β} {l : List α} {e : ε} : l.mapM f = .error e ↔
    ∃ before a after, l = before ++ a :: after ∧ (∀ b ∈ before, ∃ c, f b = .ok c) ∧ f a = .error e := by
  constructor
  · intro h
    induction l with
    | nil => cases h
    | cons a l ih =>
      rw [List.mapM_cons] at h
      cases ha : f a with
      | error e' =>
        rw [ha] at h
        cases h
        exact ⟨[], a, l, rfl, nofun, ha⟩
      | ok c =>
        rw [ha] at h
        cases hl : l.mapM f with
        | ok cs =>
          rw [hl] at h
          cases h
        | error e' =>
          rw [hl] at h
          cases h
          obtain ⟨before, b, after, rfl, hbefore, hb⟩ := ih hl
          exact ⟨a :: before, b, after, rfl, List.forall_mem_cons.2 ⟨⟨c, ha⟩, hbefore⟩, hb⟩
  · rintro ⟨before, a, after, rfl, hbefore, ha⟩
    exact mapM_append_eq_error hbefore ha

theorem mapM_singleton_eq_ok {f : α → Except ε β} {a : α} {r : List β} :
    [a].mapM f = .ok r ↔ ∃ b, r = [b] ∧ f a = .ok b := by
  rw [mapM_eq_ok_iff, List.forall₂_cons_left_iff]
  constructor
  · rintro ⟨b, rest, hb, hrest, rfl⟩
    rw [List.forall₂_nil_left_iff] at hrest
    rw [hrest]
    exact ⟨b, rfl, hb⟩
  · rintro ⟨b, rfl, hb⟩
    exact ⟨b, [], hb, .nil, rfl⟩

/-! ## Values and errors with properties -/

/-- A computation gives a value with a property, or fails with an error with another one. -/
def Yields (D : ε → Prop) (Q : α → Prop) : Except ε α → Prop
  | .ok a => Q a
  | .error e => D e

namespace Yields

variable {D D' : ε → Prop} {Q Q' : α → Prop} {R : β → Prop}

theorem ok {a : α} (h : Q a) : Yields D Q (.ok a) := h

theorem error {e : ε} (h : D e) : Yields D Q (.error e) := h

theorem mono {x : Except ε α} (h : Yields D Q x) (hD : ∀ e, D e → D' e) (hQ : ∀ a, Q a → Q' a) : Yields D' Q' x := by
  cases x with
  | ok a => exact hQ a h
  | error e => exact hD e h

theorem imp {x : Except ε α} (h : Yields D Q x) (hD : ∀ e, D e → D' e) : Yields D' Q x := h.mono hD fun _ h => h

/-- Nothing said of the value. -/
theorem any {x : Except ε α} (h : Yields D Q x) : Yields D (fun _ => True) x := h.mono (fun _ h => h) fun _ _ => trivial

theorem of_ok {x : Except ε α} (h : Yields D (fun _ => True) x) (hok : ∀ a, x = .ok a → Q a) : Yields D Q x := by
  cases x with
  | ok a => exact hok a rfl
  | error e => exact h

theorem bind {x : Except ε α} {f : α → Except ε β} (hx : Yields D Q x) (hf : ∀ a, Q a → Yields D R (f a)) :
    Yields D R (x >>= f) := by
  cases x with
  | ok a => exact hf a hx
  | error e => exact hx

/-- A check that fails if it finds something, in front of the rest. -/
theorem check {c : Prop} [Decidable c] {x : Except ε PUnit} {f : PUnit → Except ε β}
    (hx : Yields D (fun _ => False) x) (hf : Yields D R (f ⟨⟩)) : Yields D R (if c then x >>= f else f ⟨⟩) := by
  split
  · exact hx.bind fun _ h => h.elim
  · exact hf

theorem map {x : Except ε α} {f : α → β} (h : Yields D Q x) (hf : ∀ a, Q a → R (f a)) : Yields D R (x.map f) := by
  cases x with
  | ok a => exact hf a h
  | error e => exact h

theorem mapM {f : α → Except ε β} {l : List α} (h : ∀ a ∈ l, Yields D R (f a)) :
    Yields D (fun bs => ∀ b ∈ bs, R b) (l.mapM f) := by
  induction l with
  | nil => exact ok (by simp)
  | cons a l ih =>
    rw [List.forall_mem_cons] at h
    rw [List.mapM_cons]
    exact h.1.bind fun b hb => (ih h.2).bind fun bs hbs => ok (List.forall_mem_cons.2 ⟨hb, hbs⟩)

/-- What every step keeps, from what it goes on with, the end has. -/
theorem foldlM {f : σ → α → Except ε σ} {I : σ → Prop} {l : List α} {s : σ} (hs : I s)
    (h : ∀ s a, a ∈ l → I s → Yields D I (f s a)) : Yields D I (l.foldlM f s) := by
  induction l generalizing s with
  | nil => exact hs
  | cons a l ih =>
    rw [List.foldlM_cons]
    exact (h s a List.mem_cons_self hs).bind fun t ht => ih ht fun s b hb => h s b (List.mem_cons_of_mem a hb)

end Yields

/-! ## Lists related element by element -/

theorem forall₂_comp {α β δ : Type} {R : α → β → Prop} {S : β → δ → Prop} {T : α → δ → Prop}
    (h : ∀ a c, (∃ b, R a b ∧ S b c) → T a c) {l : List α} {m : List β} {n : List δ} (hl : List.Forall₂ R l m)
    (hm : List.Forall₂ S m n) : List.Forall₂ T l n := by
  induction hl generalizing n with
  | nil =>
    cases hm
    exact .nil
  | cons hab _ ih =>
    cases hm with
    | cons hbc hrest => exact .cons (h _ _ ⟨_, hab, hbc⟩) (ih hrest)

theorem forall₂_split {α β δ : Type} {R : α → β → Prop} {S : β → δ → Prop} {T : α → δ → Prop}
    (h : ∀ a c, T a c → ∃ b, R a b ∧ S b c) {l : List α} {n : List δ} (hl : List.Forall₂ T l n) :
    ∃ m, List.Forall₂ R l m ∧ List.Forall₂ S m n := by
  induction hl with
  | nil => exact ⟨[], .nil, .nil⟩
  | cons hhead _ ih =>
    obtain ⟨b, hR, hS⟩ := h _ _ hhead
    obtain ⟨m, hm, hn⟩ := ih
    exact ⟨b :: m, .cons hR hm, .cons hS hn⟩

theorem forall₂_append_left {R : α → β → Prop} {l l' : List α} {m : List β} (h : List.Forall₂ R (l ++ l') m) :
    ∃ n n', m = n ++ n' ∧ List.Forall₂ R l n ∧ List.Forall₂ R l' n' := by
  induction l generalizing m with
  | nil => exact ⟨[], m, rfl, .nil, h⟩
  | cons a l ih =>
    cases h with
    | cons hhead h =>
      obtain ⟨n, n', rfl, hn, hn'⟩ := ih h
      exact ⟨_ :: n, n', rfl, .cons hhead hn, hn'⟩

theorem forall_of_forall₂_right {R : α → β → Prop} {p : β → Prop} (hp : ∀ a b, R a b → p b) {l : List α} {m : List β}
    (h : List.Forall₂ R l m) : ∀ b ∈ m, p b := by
  induction h with
  | nil => simp
  | cons hhead _ ih => exact List.forall_mem_cons.2 ⟨hp _ _ hhead, ih⟩

/-! ## Tables -/

/-- A table without double keys can be listed in any order. -/
theorem lookup_perm [BEq α] [LawfulBEq α] {l l' : List (α × β)} (h : l.Perm l')
    (hl : (l.map Prod.fst).Nodup) (a : α) : l.lookup a = l'.lookup a := by
  induction h with
  | nil => rfl
  | cons x _ ih =>
    obtain ⟨k, v⟩ := x
    rw [List.map_cons, List.nodup_cons] at hl
    simp only [List.lookup_cons, ih hl.2]
  | swap x y l =>
    obtain ⟨k, v⟩ := x
    obtain ⟨k', v'⟩ := y
    simp only [List.map_cons, List.nodup_cons, List.mem_cons, not_or] at hl
    simp only [List.lookup_cons]
    by_cases hk : a = k
    · subst hk
      simp [beq_false_of_ne (Ne.symm hl.1.1)]
    · simp [beq_false_of_ne hk]
  | trans h _ ih ih' => exact (ih hl).trans (ih' ((h.map _).nodup_iff.1 hl))

theorem lookup_of_mem [BEq α] [LawfulBEq α] {l : List (α × β)} (hl : (l.map Prod.fst).Nodup) {a : α} {b : β}
    (h : (a, b) ∈ l) : l.lookup a = some b := by
  obtain ⟨before, after, rfl⟩ := List.append_of_mem h
  rw [lookup_perm List.perm_middle hl, List.lookup_cons_self]

end Avr

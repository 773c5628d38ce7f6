import Avr.Symbols

/-!
# Tables of names

* `Symbols.binding?` : the binding of a name in one of the three tables;
* `Symbols.define_eq_ok_iff`, `Symbols.define_eq_error_iff` : when a name can be bound, and why not;
* `Symbols.after` : the table after attempts to bind names; `find?_after`, `constant?_after` : labels and aliases stay,
  constants have their last value;
* `Tables` : the three tables as a map each; `Tables.Shows` : they hold what one map holds;
* `tables_disjoint` : so they are disjoint after any attempts, and each name is bound once unless it is a constant.
-/

namespace Avr

namespace Symbols

/-! ## Bindings -/

/-- The binding of a name in one of the three tables. -/
def binding? (s : Symbols) (k : Table) (name : String) : Option Binding :=
  match k with
  | .label => (s.label? name).map .label
  | .constant => (s.constant? name).map .constant
  | .registerAlias => (s.registerAlias? name).map .registerAlias

theorem binding?_eq (s : Symbols) (k : Table) (name : String) :
    s.binding? k name = (s.find? name).filter (·.table = k) := by
  unfold binding? label? constant? registerAlias?
  cases s.find? name with
  | none => cases k <;> rfl
  | some b => cases b <;> cases k <;> rfl

theorem isSome_binding?_iff {s : Symbols} {k : Table} {name : String} :
    (s.binding? k name).isSome ↔ s.tableOf? name = some k := by
  rw [binding?_eq, tableOf?]
  cases s.find? name with
  | none => simp
  | some b => by_cases h : b.table = k <;> simp [h]

theorem binding?_bind (s : Symbols) (name other : String) (b : Binding) (k : Table) : (s.bind name b).binding? k other =
    if other = name then (if k = b.table then some b else none) else s.binding? k other := by
  rw [binding?_eq, binding?_eq, find?_bind]
  by_cases hname : other = name
  · rw [if_pos hname, if_pos hname]
    by_cases hk : k = b.table
    · rw [if_pos hk]
      exact Option.filter_some_pos (decide_eq_true hk.symm)
    · rw [if_neg hk]
      exact Option.filter_some_neg (by simpa using Ne.symm hk)
  · rw [if_neg hname, if_neg hname]

/-! ## Definitions -/

/-- A name can be bound if it is free, or if it is a constant and is to be one. -/
def Admits (s : Symbols) (name : String) (b : Binding) : Prop :=
  s.tableOf? name = none ∨ s.tableOf? name = some .constant ∧ b.table = .constant

theorem define_eq_ok_iff {s t : Symbols} {name : String} {b : Binding} :
    s.define name b = .ok t ↔ s.Admits name b ∧ t = s.bind name b := by
  unfold define Admits
  cases s.tableOf? name with
  | none => simp [eq_comm]
  | some existing =>
    by_cases hsame : existing = b.table
    · by_cases hconstant : existing = .constant
      · simp [← hsame, hconstant, eq_comm]
      · simp [← hsame, hconstant]
    · have hother : ¬ (existing = .constant ∧ b.table = .constant) := fun h => hsame (h.1.trans h.2.symm)
      simp [hsame, hother]

/-- Only the name is bound, and only in the table of its binding. -/
theorem binding?_bind_of_admits {s : Symbols} {name : String} {b : Binding} (h : s.Admits name b) (k : Table)
    (other : String) :
    (s.bind name b).binding? k other = if other = name ∧ k = b.table then some b else s.binding? k other := by
  rw [binding?_bind]
  by_cases hname : other = name
  · subst hname
    by_cases hk : k = b.table
    · simp [hk]
    · have hnone : s.binding? k other = none := by
        rw [← Option.not_isSome_iff_eq_none, isSome_binding?_iff]
        intro htable
        rw [Admits, htable] at h
        obtain hfree | ⟨hconstant, hb⟩ := h
        · cases hfree
        · exact hk ((Option.some.inj hconstant).trans hb.symm)
      simp [hk, hnone]
  · simp [hname]

theorem define_eq_error_iff {s : Symbols} {name : String} {b : Binding} {e : DefinitionError} :
    s.define name b = .error e ↔
      (b.table ≠ .constant ∧ s.tableOf? name = some b.table ∧ e = .redefinition name b.table) ∨
        ∃ k, k ≠ b.table ∧ s.tableOf? name = some k ∧ e = .nameConflict name k b.table := by
  unfold define
  cases s.tableOf? name with
  | none => simp
  | some existing =>
    simp only [Option.some.injEq]
    by_cases hsame : existing = b.table
    · have hno : ¬ ∃ k, k ≠ b.table ∧ existing = k ∧ e = .nameConflict name k b.table := by
        rintro ⟨k, hk, rfl, -⟩
        exact hk hsame
      rw [if_pos hsame, or_iff_left hno]
      by_cases hconstant : existing = .constant
      · simp [← hsame, hconstant]
      · simp [← hsame, hconstant, eq_comm]
    · rw [if_neg hsame, or_iff_right (fun h => hsame h.2.1), Except.error.injEq]
      constructor
      · rintro rfl
        exact ⟨existing, hsame, rfl, rfl⟩
      · rintro ⟨k, -, rfl, rfl⟩
        rfl

/-! ## Histories -/

/-- The table after an attempt to bind a name. One that fails changes nothing. -/
def attempt (s : Symbols) (d : String × Binding) : Symbols :=
  match s.define d.1 d.2 with
  | .ok t => t
  | .error _ => s

def after (s : Symbols) (history : List (String × Binding)) : Symbols := history.foldl attempt s

theorem attempt_cases (s : Symbols) (d : String × Binding) :
    s.Admits d.1 d.2 ∧ s.attempt d = s.bind d.1 d.2 ∨ ¬ s.Admits d.1 d.2 ∧ s.attempt d = s := by
  unfold attempt
  cases hdefine : s.define d.1 d.2 with
  | ok t => exact .inl (define_eq_ok_iff.1 hdefine)
  | error e =>
    refine .inr ⟨fun hadmits => ?_, rfl⟩
    rw [define_eq_ok_iff.2 ⟨hadmits, rfl⟩] at hdefine
    cases hdefine

theorem find?_attempt {s : Symbols} {name : String} {b : Binding} (h : s.find? name = some b)
    (hb : b.table ≠ .constant) (d : String × Binding) : (s.attempt d).find? name = some b := by
  obtain ⟨hadmits, heq⟩ | ⟨-, heq⟩ := s.attempt_cases d
  · rw [heq, find?_bind, if_neg, h]
    rintro rfl
    have htable : s.tableOf? d.1 = some b.table := by rw [tableOf?, h, Option.map_some]
    rw [Admits, htable] at hadmits
    obtain hfree | ⟨hconstant, -⟩ := hadmits
    · cases hfree
    · exact hb (Option.some.inj hconstant)
  · rw [heq, h]

theorem find?_after {s : Symbols} {name : String} {b : Binding} (h : s.find? name = some b)
    (hb : b.table ≠ .constant) (history : List (String × Binding)) : (s.after history).find? name = some b := by
  induction history generalizing s with
  | nil => exact h
  | cons d history ih => exact ih (find?_attempt h hb d)

def valueFor? (name : String) : String × Binding → Option Int
  | (other, .constant v) => if other = name then some v else none
  | _ => none

/-- The value that the last of some definitions of a constant gives to it. -/
def lastValue? (name : String) (history : List (String × Binding)) : Option Int :=
  (history.filterMap (valueFor? name)).getLast?

theorem valueFor?_eq_some_iff {name : String} {d : String × Binding} {v : Int} :
    valueFor? name d = some v ↔ d = (name, .constant v) := by
  unfold valueFor?
  split
  · next other w => simp [and_comm]
  · next hother =>
    refine ⟨nofun, ?_⟩
    rintro rfl
    exact absurd rfl (hother name v)

theorem constant?_eq_some_iff {s : Symbols} {name : String} {v : Int} :
    s.constant? name = some v ↔ s.find? name = some (.constant v) := by
  unfold constant?
  split
  · next w h => rw [h, Option.some.injEq, Option.some.injEq, Binding.constant.injEq]
  · next h => exact ⟨nofun, fun h' => absurd h' (h v)⟩

theorem constant?_attempt {s : Symbols} {name : String} {v : Int} (d : String × Binding)
    (h : (s.attempt d).constant? name = some v) : some v = (valueFor? name d).or (s.constant? name) := by
  cases hvalue : valueFor? name d with
  | some w =>
    obtain rfl := valueFor?_eq_some_iff.1 hvalue
    rw [Option.some_or]
    obtain ⟨-, heq⟩ | ⟨hadmits, heq⟩ := s.attempt_cases (name, .constant w)
    · rw [heq, constant?_eq_some_iff, find?_bind, if_pos rfl] at h
      cases h
      rfl
    · rw [heq, constant?_eq_some_iff] at h
      exact absurd (.inr ⟨by rw [tableOf?, h]; rfl, rfl⟩) hadmits
  | none =>
    rw [Option.none_or]
    obtain ⟨-, heq⟩ | ⟨-, heq⟩ := s.attempt_cases d
    · rw [heq, constant?_eq_some_iff, find?_bind] at h
      split at h
      · next hname =>
        have hd : d = (name, .constant v) := Prod.ext hname.symm (Option.some.inj h)
        rw [valueFor?_eq_some_iff.2 hd] at hvalue
        cases hvalue
      · exact (constant?_eq_some_iff.2 h).symm
    · rw [← heq, h]

theorem lastValue?_cons (name : String) (d : String × Binding) (history : List (String × Binding)) :
    lastValue? name (d :: history) = (lastValue? name history).or (valueFor? name d) := by
  unfold lastValue?
  cases hvalue : valueFor? name d with
  | none => rw [List.filterMap_cons_none hvalue, Option.or_none]
  | some v => rw [List.filterMap_cons_some hvalue, List.getLast?_cons, Option.or_some]

/-- A constant has the value of its last definition, or the one from before all of them. -/
theorem constant?_after {s : Symbols} {name : String} {v : Int} {history : List (String × Binding)}
    (h : (s.after history).constant? name = some v) : some v = (lastValue? name history).or (s.constant? name) := by
  induction history generalizing s with
  | nil => exact h.symm
  | cons d history ih =>
    rw [lastValue?_cons]
    have hlater := ih h
    cases hlast : lastValue? name history with
    | some w =>
      rw [hlast] at hlater
      exact hlater
    | none =>
      rw [hlast, Option.none_or] at hlater
      rw [Option.none_or]
      exact constant?_attempt d hlater.symm

end Symbols

/-! ## Three tables -/

/-- The three tables as a map each. -/
structure Tables where
  labels : Std.TreeMap String Nat := {}
  constants : Std.TreeMap String Int := {}
  aliases : Std.TreeMap String Nat := {}

namespace Tables

def binding? (t : Tables) (k : Table) (name : String) : Option Binding :=
  match k with
  | .label => t.labels[name]?.map .label
  | .constant => t.constants[name]?.map .constant
  | .registerAlias => t.aliases[name]?.map .registerAlias

def tableOf? (t : Tables) (name : String) : Option Table :=
  if t.labels.contains name then some .label
  else if t.constants.contains name then some .constant
  else if t.aliases.contains name then some .registerAlias
  else none

/-- Whether a name may be put into a table. -/
def checkFree (t : Tables) (name : String) (k : Table) : Except DefinitionError Unit :=
  match t.tableOf? name with
  | none => .ok ()
  | some existing =>
    if existing = .constant ∧ k = .constant then .ok ()
    else if existing = k then .error (.redefinition name k)
    else .error (.nameConflict name existing k)

/-- The tables with a name put into one of them, whatever the others hold. -/
def insert (t : Tables) (name : String) : Binding → Tables
  | .label i => { t with labels := t.labels.insert name i }
  | .constant v => { t with constants := t.constants.insert name v }
  | .registerAlias r => { t with aliases := t.aliases.insert name r }

def define (t : Tables) (name : String) (b : Binding) : Except DefinitionError Tables := do
  t.checkFree name b.table
  return t.insert name b

def attempt (t : Tables) (d : String × Binding) : Tables :=
  match t.define d.1 d.2 with
  | .ok t' => t'
  | .error _ => t

def after (t : Tables) (history : List (String × Binding)) : Tables := history.foldl attempt t

def predefined : Tables :=
  let aliases := Symbols.predefinedAliases.foldl (fun t p => t.insert p.1 (.registerAlias p.2)) ({} : Tables)
  Symbols.predefinedConstants.foldl (fun t p => t.insert p.1 (.constant p.2)) aliases

theorem binding?_insert (t : Tables) (name other : String) (b : Binding) (k : Table) :
    (t.insert name b).binding? k other = if other = name ∧ k = b.table then some b else t.binding? k other := by
  by_cases hname : other = name
  · subst hname
    cases b <;> cases k <;> simp [insert, binding?, Binding.table]
  · have hcompare : compare name other ≠ .eq := fun h => hname (Std.compare_eq_iff_eq.1 h).symm
    cases b <;> cases k <;> simp [insert, binding?, Std.TreeMap.getElem?_insert, hname, hcompare]

/-- The three tables hold what the one holds. -/
def Shows (t : Tables) (s : Symbols) : Prop := ∀ k name, t.binding? k name = s.binding? k name

namespace Shows

variable {t : Tables} {s : Symbols}

theorem empty : ({} : Tables).Shows .empty := by
  intro k name
  cases k <;> rfl

theorem tableOf? (h : t.Shows s) (name : String) : t.tableOf? name = s.tableOf? name := by
  have hlabels : t.labels.contains name = (t.binding? .label name).isSome := by
    rw [binding?, Option.isSome_map, Std.TreeMap.contains_eq_isSome_getElem?]
  have hconstants : t.constants.contains name = (t.binding? .constant name).isSome := by
    rw [binding?, Option.isSome_map, Std.TreeMap.contains_eq_isSome_getElem?]
  have haliases : t.aliases.contains name = (t.binding? .registerAlias name).isSome := by
    rw [binding?, Option.isSome_map, Std.TreeMap.contains_eq_isSome_getElem?]
  rw [Tables.tableOf?, hlabels, hconstants, haliases, h, h, h]
  simp only [Symbols.isSome_binding?_iff]
  cases s.tableOf? name with
  | none => rfl
  | some k => cases k <;> rfl

theorem insert (h : t.Shows s) {name : String} {b : Binding} (hb : s.Admits name b) :
    (t.insert name b).Shows (s.bind name b) := by
  intro k other
  rw [binding?_insert, Symbols.binding?_bind_of_admits hb, h]

theorem checkFree (h : t.Shows s) (name : String) (b : Binding) :
    t.checkFree name b.table = (s.define name b).map fun _ => () := by
  unfold Tables.checkFree Symbols.define
  rw [h.tableOf?]
  cases s.tableOf? name with
  | none => rfl
  | some existing =>
    by_cases hsame : existing = b.table
    · by_cases hconstant : existing = .constant
      · simp [← hsame, hconstant, Except.map]
      · simp [← hsame, hconstant, Except.map]
    · have hother : ¬ (existing = .constant ∧ b.table = .constant) := fun h => hsame (h.1.trans h.2.symm)
      simp [hsame, hother, Except.map]

/-- A definition has the same outcome in the three tables, which hold the same afterwards. -/
theorem define (h : t.Shows s) (name : String) (b : Binding) :
    (∃ t' s', t.define name b = .ok t' ∧ s.define name b = .ok s' ∧ t'.Shows s') ∨
      ∃ e, t.define name b = .error e ∧ s.define name b = .error e := by
  have hcheck := h.checkFree name b
  unfold Tables.define
  cases hdefine : s.define name b with
  | ok s' =>
    obtain ⟨hadmits, rfl⟩ := Symbols.define_eq_ok_iff.1 hdefine
    rw [hdefine] at hcheck
    rw [hcheck]
    exact .inl ⟨t.insert name b, _, rfl, rfl, h.insert hadmits⟩
  | error e =>
    rw [hdefine] at hcheck
    rw [hcheck]
    exact .inr ⟨e, rfl, rfl⟩

theorem attempt (h : t.Shows s) (d : String × Binding) : (t.attempt d).Shows (s.attempt d) := by
  unfold Tables.attempt Symbols.attempt
  obtain ⟨t', s', ht, hs, h'⟩ | ⟨e, ht, hs⟩ := h.define d.1 d.2
  · rw [ht, hs]
    exact h'
  · rw [ht, hs]
    exact h

theorem after (h : t.Shows s) (history : List (String × Binding)) : (t.after history).Shows (s.after history) := by
  induction history generalizing t s with
  | nil => exact h
  | cons d history ih => exact ih (h.attempt d)

/-- Names that are free and differ from each other may be put into their tables without a check. -/
theorem foldl (h : t.Shows s) {ds : List (String × Binding)} (hnodup : (ds.map Prod.fst).Nodup)
    (hfree : ∀ d ∈ ds, s.find? d.1 = none) : (ds.foldl (fun t d => t.insert d.1 d.2) t).Shows
      (ds.foldl (fun s d => s.bind d.1 d.2) s) := by
  induction ds generalizing t s with
  | nil => exact h
  | cons d ds ih =>
    rw [List.map_cons, List.nodup_cons] at hnodup
    have hadmits : s.Admits d.1 d.2 := by
      left
      rw [Symbols.tableOf?, hfree d List.mem_cons_self, Option.map_none]
    refine ih (h.insert hadmits) hnodup.2 fun d' hd' => ?_
    rw [Symbols.find?_bind, if_neg, hfree d' (List.mem_cons_of_mem d hd')]
    intro hname
    exact hnodup.1 (hname ▸ List.mem_map_of_mem hd')

theorem predefined : Tables.predefined.Shows .predefined := by
  let ds := Symbols.predefinedAliases.map (fun p => (p.1, Binding.registerAlias p.2)) ++
    Symbols.predefinedConstants.map fun p => (p.1, Binding.constant p.2)
  have hnodup : (ds.map Prod.fst).Nodup := by decide +kernel
  have hfold := Shows.empty.foldl hnodup fun _ _ => rfl
  simp only [ds, List.foldl_append, List.foldl_map] at hfold
  exact hfold

end Shows

end Tables

/-! ## Histories of the three tables -/

inductive Origin
  | empty
  | predefined

namespace Origin

def symbols : Origin → Symbols
  | empty => .empty
  | predefined => .predefined

def tables : Origin → Tables
  | empty => {}
  | predefined => .predefined

theorem shows (o : Origin) : o.tables.Shows o.symbols := by
  cases o with
  | empty => exact .empty
  | predefined => exact .predefined

end Origin

/-- How names are bound in a table `s` and the three tables `t` that show it. -/
structure Disciplined (s : Symbols) (t : Tables) : Prop where
  shown : ∀ k name, t.binding? k name = s.binding? k name
  alike : ∀ name b, (t.define name b).map Tables.binding? = (s.define name b).map Symbols.binding?
  /-- No name is in two tables. -/
  disjoint : ∀ name k k', (t.binding? k name).isSome → (t.binding? k' name).isSome → k = k'
  succeeds : ∀ name b, (∃ s', s.define name b = .ok s') ↔
    (∀ k, s.binding? k name = none) ∨ (s.binding? .constant name).isSome ∧ b.table = .constant
  /-- Success changes the name in the table of its binding and nothing else. -/
  binds : ∀ name b s', s.define name b = .ok s' →
    ∀ k other, s'.binding? k other = if other = name ∧ k = b.table then some b else s.binding? k other
  /-- Failure tells the table which has the name, and changes nothing. -/
  fails : ∀ name b e, s.define name b = .error e ↔
    ((s.binding? b.table name).isSome ∧ b.table ≠ .constant ∧ e = .redefinition name b.table) ∨
      ∃ k, (s.binding? k name).isSome ∧ k ≠ b.table ∧ e = .nameConflict name k b.table
  keeps : ∀ name b e, s.define name b = .error e → s.attempt (name, b) = s ∧ t.attempt (name, b) = t

namespace Symbols

theorem free_iff {s : Symbols} {name : String} : s.tableOf? name = none ↔ ∀ k, s.binding? k name = none := by
  constructor
  · intro h k
    rw [← Option.not_isSome_iff_eq_none, isSome_binding?_iff, h]
    exact nofun
  · intro h
    cases htable : s.tableOf? name with
    | none => rfl
    | some k =>
      rw [← isSome_binding?_iff, h] at htable
      cases htable

theorem exists_define_iff {s : Symbols} {name : String} {b : Binding} : (∃ s', s.define name b = .ok s') ↔
    (∀ k, s.binding? k name = none) ∨ (s.binding? .constant name).isSome ∧ b.table = .constant := by
  rw [← free_iff, isSome_binding?_iff]
  constructor
  · rintro ⟨s', h⟩
    exact (define_eq_ok_iff.1 h).1
  · intro h
    exact ⟨s.bind name b, define_eq_ok_iff.2 ⟨h, rfl⟩⟩

end Symbols

theorem Tables.Shows.disciplined {s : Symbols} {t : Tables} (h : t.Shows s) : Disciplined s t where
  shown := h
  alike name b := by
    obtain ⟨t', s', ht, hs, h'⟩ | ⟨e, ht, hs⟩ := h.define name b
    · rw [ht, hs]
      exact congrArg Except.ok (funext fun k => funext fun other => h' k other)
    · rw [ht, hs]
      rfl
  disjoint name k k' hk hk' := by
    rw [h, Symbols.isSome_binding?_iff] at hk hk'
    exact Option.some.inj (hk.symm.trans hk')
  succeeds _ _ := Symbols.exists_define_iff
  binds name b s' hs' := by
    obtain ⟨hadmits, rfl⟩ := Symbols.define_eq_ok_iff.1 hs'
    exact Symbols.binding?_bind_of_admits hadmits
  fails name b e := by
    simp only [Symbols.define_eq_error_iff, Symbols.isSome_binding?_iff]
    constructor
    · rintro (⟨hb, htable, he⟩ | ⟨k, hk, htable, he⟩)
      · exact .inl ⟨htable, hb, he⟩
      · exact .inr ⟨k, htable, hk, he⟩
    · rintro (⟨htable, hb, he⟩ | ⟨k, htable, hk, he⟩)
      · exact .inl ⟨hb, htable, he⟩
      · exact .inr ⟨k, hk, htable, he⟩
  keeps name b e he := by
    obtain ⟨t', s', -, hs, -⟩ | ⟨e', ht, hs⟩ := h.define name b
    · rw [hs] at he
      cases he
    · unfold Symbols.attempt Tables.attempt
      rw [hs, ht]
      exact ⟨rfl, rfl⟩

/-- After any attempts to bind names, from the empty table or the predefined one, the three tables are disjoint and
hold what the one table holds. A name can be bound if it is free or if a constant is to have a new value, which changes
nothing else; otherwise the error tells why, and nothing changes. So a label or an alias remains what it is whatever is
attempted later, and a constant has the value of its last definition. -/
theorem tables_disjoint (o : Origin) (history : List (String × Binding)) :
    let s := o.symbols.after history
    Disciplined s (o.tables.after history) ∧
      (∀ name b, s.find? name = some b → b.table ≠ .constant → ∀ later, (s.after later).find? name = some b) ∧
      ∀ name v, s.constant? name = some v →
        some v = (Symbols.lastValue? name history).or (o.symbols.constant? name) :=
  ⟨(o.shows.after history).disciplined, fun _ _ h hb later => Symbols.find?_after h hb later,
    fun _ _ h => Symbols.constant?_after h⟩

end Avr

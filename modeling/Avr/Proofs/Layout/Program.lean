import Avr.Layout.Program
import Avr.Proofs.Results

/-!
# Slots and labels of the text section

* `Symbols.Extends` : a table that has all labels of another one; `extends_of_define` : binding a name keeps them;
* `Statement.block` : the slots of a statement; `Statement.From` : a statement that a line holds;
* `ProgramState.Adds` : what statements add; `add_ok`, `foldlM_add_ok` : what a line and what lines add;
* `Between` : a slot between the statements before a line and those from there on;
* `foldlM_add_label` : a label of the text section is bound to that slot.
-/

namespace Avr

/-! ## Labels in the table -/

def Binding.index? : Binding → Option Nat
  | label i => some i
  | _ => none

namespace Symbols

/-- All labels of the first table are in the second one. -/
def Extends (s t : Symbols) : Prop := ∀ name i, s.label? name = some i → t.label? name = some i

theorem Extends.refl (s : Symbols) : s.Extends s := fun _ _ h => h

theorem Extends.trans {s t u : Symbols} (h : s.Extends t) (h' : t.Extends u) : s.Extends u :=
  fun name i hi => h' name i (h name i hi)

theorem label?_eq_some_iff {s : Symbols} {name : String} {i : Nat} :
    s.label? name = some i ↔ s.find? name = some (.label i) := by
  unfold label?
  split
  · next j h => rw [h, Option.some.injEq, Option.some.injEq, Binding.label.injEq]
  · next h =>
    constructor
    · intro h'
      cases h'
    · intro h'
      exact absurd h' (h i)

/-- A name that can be bound is no label yet. -/
theorem define_eq_ok {s t : Symbols} {name : String} {b : Binding} (h : s.define name b = .ok t) :
    t = s.bind name b ∧ ∀ i, s.label? name ≠ some i := by
  unfold define at h
  have hlabel : ∀ i, s.label? name = some i → s.tableOf? name = some .label := by
    intro i hi
    rw [tableOf?, label?_eq_some_iff.1 hi]
    rfl
  split at h
  · next hfree =>
    cases h
    refine ⟨rfl, fun i hi => ?_⟩
    rw [hlabel i hi] at hfree
    cases hfree
  · next existing hexisting =>
    split at h
    · split at h
      · next hconstant =>
        cases h
        refine ⟨rfl, fun i hi => ?_⟩
        rw [hlabel i hi, hconstant] at hexisting
        cases hexisting
      · cases h
    · cases h

theorem label?_bind (s : Symbols) (name other : String) (b : Binding) :
    (s.bind name b).label? other = if other = name then b.index? else s.label? other := by
  unfold label?
  rw [find?_bind]
  by_cases h : other = name
  · rw [if_pos h, if_pos h]
    cases b <;> rfl
  · rw [if_neg h, if_neg h]

theorem label?_bind_self (s : Symbols) (name : String) (i : Nat) : (s.bind name (.label i)).label? name = some i := by
  rw [label?_bind, if_pos rfl, Binding.index?]

theorem extends_of_define {s t : Symbols} {name : String} {b : Binding} (h : s.define name b = .ok t) :
    s.Extends t := by
  obtain ⟨rfl, hfree⟩ := define_eq_ok h
  intro other i hi
  have hne : other ≠ name := by
    rintro rfl
    exact hfree i hi
  rw [label?_eq_some_iff, find?_bind, if_neg hne, ← label?_eq_some_iff, hi]

end Symbols

def leadingLabel? (tokens : List Token) : Option String :=
  match tokens with
  | ⟨.label name, _, _⟩ :: _ => some name
  | _ => none

theorem bindLabel_ok {tokens rest : List Token} {s t : Symbols} {index : Nat}
    (h : bindLabel tokens s index = .ok (rest, t)) :
    s.Extends t ∧ rest.Sublist tokens ∧ (∀ name, leadingLabel? tokens = some name → t.label? name = some index) ∧
      ∀ name i, t.label? name = some i → s.label? name = some i ∨ i = index := by
  unfold bindLabel at h
  split at h
  · next name raw loc rest' =>
    split at h
    · next t' hdefine =>
      cases h
      have hbind := (Symbols.define_eq_ok hdefine).1
      refine ⟨Symbols.extends_of_define hdefine, List.sublist_cons_self _ _, ?_, ?_⟩
      · intro name' hname
        cases hname
        rw [hbind, Symbols.label?_bind_self]
      · intro name' i hi
        rw [hbind, Symbols.label?_bind] at hi
        split at hi
        · exact .inr (Option.some.inj hi).symm
        · exact .inl hi
    · cases h
  · next hnone =>
    cases h
    refine ⟨.refl s, .refl _, ?_, fun name i hi => .inl hi⟩
    intro name hname
    unfold leadingLabel? at hname
    split at hname
    · next name' raw loc rest' => exact absurd rfl (hnone name' raw loc rest')
    · cases hname

/-! ## Slots of statements -/

def Statement.block (s : Statement) : List (Option Statement) :=
  if s.mnemonic.entry.isDoubleWord then [some s, none] else [some s]

theorem Statement.block_eq_cons (s : Statement) : ∃ rest, s.block = some s :: rest ∧ ∀ x ∈ rest, x = none := by
  unfold block
  split
  · exact ⟨[none], rfl, by simp⟩
  · exact ⟨[], rfl, by simp⟩

theorem mem_block {s s' : Statement} (h : some s ∈ s'.block) : s = s' := by
  obtain ⟨rest, hblock, hrest⟩ := s'.block_eq_cons
  rw [hblock, List.mem_cons] at h
  rcases h with h | h
  · exact Option.some.inj h
  · cases hrest _ h

def Statement.From (s : Statement) (line : Line) : Prop := s.line = line.number ∧ ∀ t ∈ s.args, t ∈ line.tokens

namespace ProgramState

theorem toList_push (slots : Array (Option Statement)) (s : Statement) :
    (push slots s).toList = slots.toList ++ s.block := by
  unfold push Statement.block
  split <;> simp

/-- From the first state to the second all labels stay, the slots of some statements are added, as many as flash
holds, and each new label is bound to a slot where one of these statements ends or the first one begins. -/
structure Adds (s : ProgramState) (sts : List Statement) (t : ProgramState) : Prop where
  symbols : s.symbols.Extends t.symbols
  labels : ∀ name i, t.symbols.label? name = some i → s.symbols.label? name = some i ∨
    ∃ before after, sts = before ++ after ∧ i = s.slots.size + (before.flatMap Statement.block).length
  slots : t.slots.toList = s.slots.toList ++ sts.flatMap Statement.block
  size : s.slots.size ≤ flashSize → t.slots.size ≤ flashSize
  globals : ∃ more, t.globals = s.globals ++ more

namespace Adds

theorem refl (s : ProgramState) : s.Adds [] s :=
  ⟨.refl _, fun _ _ h => .inl h, by simp, id, [], by simp⟩

theorem size_eq {s t : ProgramState} {sts : List Statement} (h : s.Adds sts t) :
    t.slots.size = s.slots.size + (sts.flatMap Statement.block).length := by
  rw [← Array.length_toList, h.slots, List.length_append, Array.length_toList]

theorem trans {s t u : ProgramState} {sts sts' : List Statement} (h : s.Adds sts t) (h' : t.Adds sts' u) :
    s.Adds (sts ++ sts') u := by
  obtain ⟨more, hmore⟩ := h.globals
  obtain ⟨more', hmore'⟩ := h'.globals
  refine ⟨h.symbols.trans h'.symbols, ?_, ?_, h'.size ∘ h.size, more ++ more', ?_⟩
  · intro name i hi
    rcases h'.labels name i hi with hi | ⟨before, after, rfl, rfl⟩
    · rcases h.labels name i hi with hi | ⟨before, after, rfl, rfl⟩
      · exact .inl hi
      · exact .inr ⟨before, after ++ sts', by rw [List.append_assoc], rfl⟩
    · refine .inr ⟨sts ++ before, after, by rw [List.append_assoc], ?_⟩
      rw [h.size_eq, List.flatMap_append, List.length_append, Nat.add_assoc]
  · rw [h'.slots, h.slots, List.flatMap_append, List.append_assoc]
  · rw [hmore', hmore, List.append_assoc]

end Adds

/-- What a line adds behind its label: nothing or the slots of one statement. -/
theorem addTokens_ok {wanted : Option Nat} {s t : ProgramState} {line : Nat} {tokens : List Token}
    (h : s.addTokens wanted line tokens = .ok t) :
    t.symbols = s.symbols ∧ ∃ sts, s.Adds sts t ∧ sts.length ≤ 1 ∧
      ∀ st ∈ sts, st.line = line ∧ ∀ u ∈ st.args, u ∈ tokens := by
  unfold addTokens at h
  split at h
  · cases h
    exact ⟨rfl, [], .refl _, Nat.zero_le 1, by simp⟩
  · next head args =>
    dsimp only at h
    split at h
    · split at h
      · cases h
      · split at h
        · cases h
          exact ⟨rfl, [], ⟨.refl _, fun _ _ hi => .inl hi, by simp, id, _, rfl⟩, Nat.zero_le 1, by simp⟩
        · cases h
    · split at h
      · next m hm =>
        unfold addStatement at h
        dsimp only at h
        split at h
        · cases h
        · next hroom =>
          cases h
          refine ⟨rfl, [⟨m, head.loc, args, line⟩], ⟨.refl _, fun _ _ hi => .inl hi, ?_, ?_, [], by simp⟩,
            Nat.le_refl 1, ?_⟩
          · rw [toList_push, List.flatMap_singleton]
          · exact fun _ => Nat.not_lt.1 hroom
          · intro st hst
            obtain rfl := List.mem_singleton.1 hst
            exact ⟨rfl, fun u hu => List.mem_cons_of_mem _ hu⟩
      · cases h
    · cases h

/-- What a line adds: its label, bound to the next slot, and the slots of its statement. -/
theorem add_ok {wanted : Option Nat} {s t : ProgramState} {line : Line} (h : add wanted s line = .ok t) :
    (∀ name, leadingLabel? line.tokens = some name → t.symbols.label? name = some s.slots.size) ∧
      ∃ sts, s.Adds sts t ∧ sts.length ≤ 1 ∧ ∀ st ∈ sts, st.From line := by
  obtain ⟨⟨tokens, symbols⟩, hbind, h⟩ := bind_eq_ok.1 h
  obtain ⟨hext, hsub, hlabel, honly⟩ := bindLabel_ok hbind
  obtain ⟨hsym, sts, hadds, hlength, hsts⟩ := addTokens_ok h
  refine ⟨fun name hname => ?_, sts, ⟨?_, ?_, hadds.slots, hadds.size, hadds.globals⟩, hlength, ?_⟩
  · rw [hsym]
    exact hlabel name hname
  · rw [hsym]
    exact hext
  · intro name i hi
    rw [hsym] at hi
    rcases honly name i hi with hi | rfl
    · exact .inl hi
    · exact .inr ⟨[], sts, rfl, rfl⟩
  · exact fun st hst => ⟨(hsts st hst).1, fun u hu => hsub.subset ((hsts st hst).2 u hu)⟩

theorem foldlM_add_ok {wanted : Option Nat} {lines : List Line} {s t : ProgramState}
    (h : lines.foldlM (add wanted) s = .ok t) :
    ∃ sts, s.Adds sts t ∧ ∀ st ∈ sts, ∃ line ∈ lines, st.From line := by
  induction lines generalizing s with
  | nil =>
    cases h
    exact ⟨[], .refl _, by simp⟩
  | cons line lines ih =>
    obtain ⟨u, hu, h⟩ := foldlM_cons_eq_ok.1 h
    obtain ⟨-, sts, hadds, -, hsts⟩ := add_ok hu
    obtain ⟨sts', hadds', hsts'⟩ := ih h
    refine ⟨sts ++ sts', hadds.trans hadds', ?_⟩
    intro st hst
    rcases List.mem_append.1 hst with hst | hst
    · exact ⟨line, List.mem_cons_self, hsts st hst⟩
    · obtain ⟨line', hline', hfrom⟩ := hsts' st hst
      exact ⟨line', List.mem_cons_of_mem _ hline', hfrom⟩

end ProgramState

/-! ## Where labels stand -/

/-- Slot `index` stands between the statements written before line `n` and those written from there on. -/
def Between (slots : List (Option Statement)) (n index : Nat) : Prop :=
  ∃ before after : List Statement,
    slots = before.flatMap Statement.block ++ after.flatMap Statement.block ∧
      index = (before.flatMap Statement.block).length ∧ (∀ st ∈ before, st.line < n) ∧ ∀ st ∈ after, n ≤ st.line

/-- A label among lines in order is bound to the slot between the statements before its line and the others. -/
theorem foldlM_add_label {wanted : Option Nat} {lines : List Line} {s t : ProgramState} (hs : s.slots = #[])
    (hlines : lines.Pairwise fun a b => a.number < b.number) (h : lines.foldlM (ProgramState.add wanted) s = .ok t)
    {line : Line} (hline : line ∈ lines) {name : String} (hname : leadingLabel? line.tokens = some name) :
    ∃ index, t.symbols.label? name = some index ∧ Between t.slots.toList line.number index := by
  obtain ⟨pre, post, rfl⟩ := List.append_of_mem hline
  rw [List.pairwise_append, List.pairwise_cons] at hlines
  obtain ⟨-, ⟨hpost, -⟩, hpre⟩ := hlines
  rw [List.foldlM_append, bind_eq_ok] at h
  obtain ⟨u, hu, h⟩ := h
  obtain ⟨v, hv, h⟩ := foldlM_cons_eq_ok.1 h
  obtain ⟨before, hbefore, hbeforeFrom⟩ := ProgramState.foldlM_add_ok hu
  obtain ⟨hlabel, sts, hsts, -, hstsFrom⟩ := ProgramState.add_ok hv
  obtain ⟨after, hafter, hafterFrom⟩ := ProgramState.foldlM_add_ok h
  have hall := hbefore.trans (hsts.trans hafter)
  have hsize := hbefore.size_eq
  rw [hs] at hsize
  refine ⟨u.slots.size, hafter.symbols name _ (hlabel name hname), before, sts ++ after, ?_, by simpa using hsize, ?_,
    ?_⟩
  · rw [hall.slots, hs, List.flatMap_append, List.nil_append]
  · intro st hst
    obtain ⟨line', hline', hfrom⟩ := hbeforeFrom st hst
    rw [hfrom.1]
    exact hpre line' hline' line List.mem_cons_self
  · intro st hst
    rcases List.mem_append.1 hst with hst | hst
    · exact Nat.le_of_eq (hstsFrom st hst).1.symm
    · obtain ⟨line', hline', hfrom⟩ := hafterFrom st hst
      rw [hfrom.1]
      exact Nat.le_of_lt (hpost line' hline')

theorem layoutProgram_ok {sections : Sections} {lines : List Line} {symbols : Symbols} {wanted : Option Nat}
    {s : ProgramState} (h : layoutProgram sections lines symbols wanted = .ok s) :
    ∃ entry, (sections.textLines lines).foldlM (ProgramState.add wanted)
        { symbols := symbols, globals := [entry] } = .ok s ∧
      (∀ p ∈ s.globals, (s.symbols.label? p.1).isSome = true) ∧
      ∃ line, lines[sections.text + 1]? = some line ∧ globalName? line.tokens = some entry := by
  unfold layoutProgram at h
  dsimp only at h
  split at h
  · cases h
  · next entry hentry =>
    obtain ⟨s', hs', h⟩ := bind_eq_ok.1 h
    split at h
    · cases h
    · next hnone =>
      cases h
      refine ⟨entry, hs', fun p hp => ?_, Option.bind_eq_some_iff.1 hentry⟩
      have := List.find?_eq_none.1 hnone p hp
      rw [Option.isSome_iff_ne_none]
      intro hnone
      rw [hnone] at this
      exact this rfl

end Avr

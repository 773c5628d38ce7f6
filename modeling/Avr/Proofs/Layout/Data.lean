import Avr.Layout.Data
import Avr.Proofs.Layout.Program

/-!
# What the data section adds

* `DataState.Grows` : labels stay, bytes are added behind the others, and data memory holds them;
* `directive_grows`, `add_grows` : what a directive and a line do;
* `layoutData_grows` : the whole section.
-/

namespace Avr

namespace DataState

/-- From the first state to the second all labels stay and bytes are only added, as many as data memory holds. -/
structure Grows (s t : DataState) : Prop where
  symbols : s.symbols.Extends t.symbols
  bytes : ∃ added : Array Byte, t.bytes = s.bytes ++ added
  size : s.bytes.size ≤ ramSize → t.bytes.size ≤ ramSize

namespace Grows

theorem refl (s : DataState) : s.Grows s := ⟨.refl _, ⟨#[], by simp⟩, id⟩

theorem trans {s t u : DataState} (h : s.Grows t) (h' : t.Grows u) : s.Grows u := by
  obtain ⟨added, hadded⟩ := h.bytes
  obtain ⟨added', hadded'⟩ := h'.bytes
  refine ⟨h.symbols.trans h'.symbols, ⟨added ++ added', ?_⟩, h'.size ∘ h.size⟩
  rw [hadded', hadded, Array.append_assoc]

theorem of_symbols {s : DataState} {symbols : Symbols} (h : s.symbols.Extends symbols) :
    s.Grows { s with symbols := symbols } := ⟨h, ⟨#[], by simp⟩, id⟩

theorem foldlM {α : Type} {f : DataState → α → Except Diagnostic DataState} (hf : ∀ s a t, f s a = .ok t → s.Grows t)
    {l : List α} {s t : DataState} (h : l.foldlM f s = .ok t) : s.Grows t := by
  induction l generalizing s with
  | nil =>
    cases h
    exact refl _
  | cons a l ih =>
    obtain ⟨u, hu, h⟩ := foldlM_cons_eq_ok.1 h
    exact (hf s a u hu).trans (ih h)

end Grows

theorem push_grows {s t : DataState} {loc : Loc} {bytes : List Byte} (h : s.push loc bytes = .ok t) : s.Grows t := by
  unfold push at h
  split at h
  · cases h
  · next hroom =>
    cases h
    have happend : s.bytes ++ bytes = s.bytes ++ bytes.toArray := by
      apply Array.ext'
      simp
    refine ⟨.refl _, ⟨bytes.toArray, happend⟩, fun _ => ?_⟩
    have hsize : (s.bytes ++ bytes).size = s.bytes.size + bytes.length := by
      rw [happend]
      simp
    exact Nat.le_trans (Nat.le_of_eq hsize) (Nat.not_lt.1 hroom)

theorem reserve_grows {s t : DataState} {loc : Loc} {count : Nat} {fill : Byte}
    (h : s.reserve loc count fill = .ok t) : s.Grows t := by
  unfold reserve at h
  split at h
  · cases h
  · next hroom =>
    cases h
    refine ⟨.refl _, ⟨_, rfl⟩, fun _ => ?_⟩
    rw [Array.size_append, Array.size_replicate]
    omega

theorem pushText_grows {ended : Bool} {s t : DataState} {u : Token} (h : pushText ended s u = .ok t) : s.Grows t := by
  unfold pushText at h
  split at h
  · split at h
    · exact push_grows h
    · cases h
  · cases h

theorem space_grows {s t : DataState} {head : Token} {ints : List (Loc × Int)} (h : s.space head ints = .ok t) :
    s.Grows t := by
  unfold space at h
  dsimp only at h
  split at h
  · cases h
  · split at h
    · cases h
    · exact reserve_grows h
  · split at h
    · cases h
    · exact reserve_grows h
  · cases h

theorem define_grows {s t : DataState} {name : Token} {b : Binding} (h : s.define name b = .ok t) : s.Grows t := by
  unfold define at h
  split at h
  · next symbols hsymbols =>
    cases h
    exact .of_symbols (Symbols.extends_of_define hsymbols)
  · cases h

theorem constant_grows {s t : DataState} {dir : Directive} {head : Token} {args : List Token}
    (h : s.constant dir head args = .ok t) : s.Grows t := by
  unfold constant at h
  split at h
  · dsimp only at h
    split at h
    · cases h
    · obtain ⟨values, -, h⟩ := bind_eq_ok.1 h
      split at h
      · cases h
      · obtain ⟨v, -, h⟩ := bind_eq_ok.1 h
        exact define_grows h
      · cases h
  · cases h
  · cases h

theorem registerAlias_grows {s t : DataState} {head : Token} {args : List Token}
    (h : s.registerAlias head args = .ok t) : s.Grows t := by
  unfold registerAlias at h
  split at h
  · cases h
  · split at h
    · split at h
      · dsimp only at h
        split at h
        · cases h
        · obtain ⟨r, -, h⟩ := bind_eq_ok.1 h
          exact define_grows h
      · cases h
    · cases h

/-- A directive adds bytes or binds a name that is no label yet. -/
theorem directive_grows {s t : DataState} {dir : Directive} {head : Token} {args : List Token}
    (h : s.directive dir head args = .ok t) : s.Grows t := by
  unfold directive at h
  cases dir with
  | byte | word =>
    obtain ⟨ints, -, h⟩ := bind_eq_ok.1 h
    exact .foldlM (fun _ _ _ => push_grows) h
  | string | asciz | ascii =>
    obtain ⟨values, -, h⟩ := bind_eq_ok.1 h
    exact .foldlM (fun _ _ _ => pushText_grows) h
  | space =>
    obtain ⟨ints, -, h⟩ := bind_eq_ok.1 h
    exact space_grows h
  | equ | assign => exact constant_grows h
  | registerAlias => exact registerAlias_grows h
  | header | finish | text | data | global => cases h

theorem add_grows {s t : DataState} {line : Line} (h : s.add line = .ok t) : s.Grows t := by
  obtain ⟨⟨tokens, symbols⟩, hbind, h⟩ := bind_eq_ok.1 h
  have hlabel : s.Grows { s with symbols := symbols } := .of_symbols (bindLabel_ok hbind).1
  dsimp only at h
  split at h
  · cases h
    exact hlabel
  · split at h
    · exact hlabel.trans (directive_grows h)
    · cases h

end DataState

/-- The data section keeps all labels and adds bytes behind the registers and windows. -/
theorem layoutData_grows {lines : List Line} {symbols : Symbols} {t : DataState} (h : layoutData lines symbols = .ok t) :
    (⟨Array.replicate ramStart 0, symbols⟩ : DataState).Grows t :=
  .foldlM (fun _ _ _ => DataState.add_grows) h

end Avr

import Mathlib.Data.List.Nodup
import Avr.CommandLine.Suite
import Avr.Proofs.Results

/-!
# Folders listed in any order

* `Files.Rearranged` : the same folders and files in another order, no file twice;
* `Rearranged.find` : a path leads to the same node in both; `Rearranged.entries` : a folder holds the same files;
* `nodup_unitsOf` : no two programs of a folder have one name;
* `Rearranged.units` : the programs asked for are the same, in the same order.
-/

namespace Avr.CommandLine

/-! ## Files -/

namespace Files

/-- The same folders and files in another order. No file is there twice. -/
structure Rearranged (t t' : Files) : Prop where
  folders : ∀ p, p ∈ t.folders ↔ p ∈ t'.folders
  files : t.files.Perm t'.files
  nodup : (t.files.map Prod.fst).Nodup

theorem rearranged_ofPaths {files files' : List (String × String)} (h : files.Perm files')
    (hnodup : ((ofPaths files).files.map Prod.fst).Nodup) : (ofPaths files).Rearranged (ofPaths files') :=
  ⟨fun _ => (h.flatMap_right _).mem_iff, h.map _, hnodup⟩

namespace Rearranged

variable {t t' : Files}

theorem node? (h : t.Rearranged t') (p : Place) : t.node? p = t'.node? p := by
  have hfolder : t.hasFolder p = t'.hasFolder p := by
    have hcontains : t.folders.contains p = t'.folders.contains p := by
      rw [Bool.eq_iff_iff, List.contains_iff_mem, List.contains_iff_mem]
      exact h.folders p
    rw [hasFolder, hasFolder, hcontains]
  rw [Files.node?, Files.node?, lookup_perm h.files h.nodup, hfolder]

theorem follow (h : t.Rearranged t') (node : Node) (names : List String) :
    t.follow node names = t'.follow node names := by
  induction names generalizing node with
  | nil => cases node <;> rfl
  | cons name names ih =>
    cases node with
    | file => rfl
    | folder p =>
      have henter : t.enter p name = t'.enter p name := by
        rw [enter, enter, h.node?]
      rw [Files.follow, Files.follow, henter]
      exact bind_congr fun node => ih node

theorem find (h : t.Rearranged t') (path : String) : t.find path = t'.find path := by
  rw [Files.find, Files.find, h.follow]

/-- A file directly in a folder lies at its name there. -/
theorem place_of_entry {p place : Place} {contents : String} {entry : String × String}
    (h : (match place with
      | name :: outer => if outer = p then some (name, contents) else none
      | [] => none) = some entry) : ∃ name, place = name :: p ∧ entry = (name, contents) := by
  cases place with
  | nil => cases h
  | cons name outer =>
    obtain ⟨hp, hentry⟩ := Option.ite_none_right_eq_some.1 h
    exact ⟨name, by rw [hp], (Option.some.inj hentry).symm⟩

/-- A folder holds the same files in both, and none twice. -/
theorem entries (h : t.Rearranged t') (path : String) :
    (∃ e, t.entries path = .error e ∧ t'.entries path = .error e) ∨
      ∃ l l', t.entries path = .ok l ∧ t'.entries path = .ok l' ∧ l.Perm l' ∧ (l.map Prod.fst).Nodup := by
  rw [Files.entries, Files.entries, h.find]
  cases t'.find path with
  | error e => exact .inl ⟨e, rfl, rfl⟩
  | ok node =>
    cases node with
    | file => exact .inl ⟨.notFolder, rfl, rfl⟩
    | folder p =>
      refine .inr ⟨_, _, rfl, rfl, h.files.filterMap _, ?_⟩
      have hplaces := List.pairwise_map.1 h.nodup
      apply List.pairwise_map.2
      apply List.Pairwise.filterMap _ _ hplaces
      rintro ⟨place, contents⟩ ⟨place', contents'⟩ hne x hx x' hx' hname
      obtain ⟨name, hplace, rfl⟩ := place_of_entry hx
      obtain ⟨name', hplace', rfl⟩ := place_of_entry hx'
      apply hne
      show place = place'
      rw [hplace, hplace', show name = name' from hname]

end Rearranged

end Files

/-! ## Units -/

theorem eq_of_stem? {file name : String} (h : stem? file = some name) : file = name ++ ".s" := by
  unfold stem? at h
  split at h
  · next c cs hreverse =>
    cases h
    rw [← String.toList_inj, ← List.reverse_inj, hreverse]
    simp
  · cases h

theorem nodup_unitsOf (files : Files) (dir : String) {entries : List (String × String)}
    (h : (entries.map Prod.fst).Nodup) : ((unitsOf files dir entries).map SuiteUnit.name).Nodup := by
  apply List.pairwise_map.2
  apply List.Pairwise.filterMap _ _ (List.pairwise_map.1 h)
  rintro ⟨file, source⟩ ⟨file', source'⟩ hne u hu u' hu' hname
  obtain ⟨name, hstem, rfl⟩ := Option.map_eq_some_iff.1 hu
  obtain ⟨name', hstem', rfl⟩ := Option.map_eq_some_iff.1 hu'
  obtain rfl : name = name' := hname
  exact hne ((eq_of_stem? hstem).trans (eq_of_stem? hstem').symm)

/-- Lists of units in any order are sorted to the same list. -/
theorem sort_units {us us' : List SuiteUnit} (h : us.Perm us') (hnames : (us.map SuiteUnit.name).Nodup) :
    us.mergeSort (fun u v => decide (u.name ≤ v.name)) = us'.mergeSort fun u v => decide (u.name ≤ v.name) := by
  have hsorted (us : List SuiteUnit) : (us.mergeSort fun u v => decide (u.name ≤ v.name)).Pairwise
      fun u v => decide (u.name ≤ v.name) = true := by
    apply List.pairwise_mergeSort
    · intro u v w huv hvw
      exact decide_eq_true (String.le_trans (of_decide_eq_true huv) (of_decide_eq_true hvw))
    · intro u v
      simpa using String.le_total u.name v.name
  have hsame := ((List.mergeSort_perm us fun u v => decide (u.name ≤ v.name)).trans h).trans
    (List.mergeSort_perm us' fun u v => decide (u.name ≤ v.name)).symm
  apply hsame.eq_of_pairwise _ (hsorted us) (hsorted us')
  intro u v hu hv huv hvu
  have hname := String.le_antisymm (of_decide_eq_true huv) (of_decide_eq_true hvu)
  exact List.inj_on_of_nodup_map hnames (List.mem_mergeSort.1 hu) (h.mem_iff.2 (List.mem_mergeSort.1 hv)) hname

theorem find?_units {us us' : List SuiteUnit} (h : us.Perm us') (hnames : (us.map SuiteUnit.name).Nodup)
    (name : String) : us.find? (·.name == name) = us'.find? (·.name == name) := by
  cases hfind : us.find? (·.name == name) with
  | none =>
    symm
    rw [List.find?_eq_none] at hfind ⊢
    intro u hu
    exact hfind u (h.mem_iff.2 hu)
  | some u =>
    have hu := List.mem_of_find?_eq_some hfind
    cases hfind' : us'.find? (·.name == name) with
    | none => exact absurd (List.find?_some hfind) (List.find?_eq_none.1 hfind' u (h.mem_iff.1 hu))
    | some v =>
      have hv := h.mem_iff.2 (List.mem_of_find?_eq_some hfind')
      have hu' := List.find?_some hfind
      have hv' := List.find?_some hfind'
      rw [beq_iff_eq] at hu' hv'
      rw [List.inj_on_of_nodup_map hnames hu hv (hu'.trans hv'.symm)]

/-- The programs asked for do not depend on the order in which folders are listed. -/
theorem Files.Rearranged.units {t t' : Files} (h : t.Rearranged t') (dir : String) (only : Option String) :
    CommandLine.units t dir only = CommandLine.units t' dir only := by
  unfold CommandLine.units
  obtain ⟨e, he, he'⟩ | ⟨l, l', hl, hl', hperm, hnodup⟩ := h.entries dir
  · rw [he, he']
  · have hexpected : expectedOutput t = expectedOutput t' := by
      funext path
      rw [expectedOutput, expectedOutput, h.find]
    have hunits : (unitsOf t dir l).Perm (unitsOf t' dir l') := by
      unfold unitsOf
      rw [hexpected]
      exact hperm.filterMap _
    have hnames := nodup_unitsOf t dir hnodup
    rw [hl, hl']
    cases only with
    | none => exact congrArg Except.ok (sort_units hunits hnames)
    | some name =>
      dsimp only
      rw [find?_units hunits hnames]

end Avr.CommandLine

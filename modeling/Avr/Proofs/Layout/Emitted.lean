import Avr.Proofs.Layout.Statements

/-!
# What directives add to data memory

* `Symbols.bindAll` : names bound in a row; `find?_bindAll` : the last binding of a name counts;
* `DataState.Emits` : bytes are added if they fit into data memory, else it overflows;
* `Emits.bind`, `emits_foldlM` : one part of a statement after another;
* `directive_emits` : a directive that stands for an item adds its bytes and binds its name.
-/

namespace Avr

/-! ## Names bound in a row -/

namespace Symbols

/-- The table with some names bound, whatever they stood for. -/
def bindAll (s : Symbols) (ds : List (String × Binding)) : Symbols := ds.foldl (fun s d => s.bind d.1 d.2) s

def bindingOf? (name : String) (d : String × Binding) : Option Binding := if d.1 = name then some d.2 else none

/-- What a name stands for by the last of some bindings of it. -/
def lastBinding? (name : String) (ds : List (String × Binding)) : Option Binding :=
  (ds.filterMap (bindingOf? name)).getLast?

theorem bindAll_append (s : Symbols) (ds ds' : List (String × Binding)) :
    s.bindAll (ds ++ ds') = (s.bindAll ds).bindAll ds' := List.foldl_append

/-- A name stands for what it was bound to last, or for what it stood for before. -/
theorem find?_bindAll (s : Symbols) (name : String) (ds : List (String × Binding)) :
    (s.bindAll ds).find? name = (lastBinding? name ds).or (s.find? name) := by
  induction ds generalizing s with
  | nil => rfl
  | cons d ds ih =>
    show ((s.bind d.1 d.2).bindAll ds).find? name = _
    rw [ih, find?_bind, lastBinding?, lastBinding?]
    by_cases hname : d.1 = name
    · have hsome : bindingOf? name d = some d.2 := if_pos hname
      rw [if_pos hname.symm, List.filterMap_cons_some hsome, List.getLast?_cons]
      cases (ds.filterMap (bindingOf? name)).getLast? <;> rfl
    · have hnone : bindingOf? name d = none := if_neg hname
      rw [if_neg (Ne.symm hname), List.filterMap_cons_none hnone]

/-- Names that can be bound are no labels yet, so labels stay. -/
theorem extends_bindAll {s : Symbols} {ds : List (String × Binding)} (hlength : ds.length ≤ 1)
    (h : ∀ d ∈ ds, s.Admits d.1 d.2) : s.Extends (s.bindAll ds) := by
  match ds, hlength with
  | [], _ => exact .refl s
  | [d], _ => exact extends_of_define (define_eq_ok_iff.2 ⟨h d List.mem_cons_self, rfl⟩)

end Symbols

/-! ## Bytes that fit or overflow -/

namespace DataState

/-- Bytes are added and a table is left if the bytes fit into data memory; else it overflows. -/
structure Emits (s : DataState) (bytes : List Byte) (symbols : Symbols) (x : Except Diagnostic DataState) : Prop where
  fits : s.bytes.size + bytes.length ≤ ramSize → x = .ok ⟨s.bytes ++ bytes, symbols⟩
  overflows : ramSize < s.bytes.size + bytes.length → ∃ loc, x = .error (.located loc (.layout .ramOverflow))

variable {s : DataState}

theorem size_append_bytes (a : Array Byte) (bs : List Byte) : (a ++ bs).size = a.size + bs.length := by
  rw [← Array.length_toList, Array.toList_appendList, List.length_append, Array.length_toList]

theorem append_append_bytes (a : Array Byte) (bs bs' : List Byte) : a ++ bs ++ bs' = a ++ (bs ++ bs') := by
  apply Array.ext'
  simp

theorem emits_ok (hs : s.bytes.size ≤ ramSize) (symbols : Symbols) :
    s.Emits [] symbols (.ok { s with symbols := symbols }) := by
  constructor
  · intro _
    have hnone : s.bytes ++ ([] : List Byte) = s.bytes := by simp
    rw [hnone]
  · intro h
    rw [List.length_nil] at h
    omega

theorem push_emits (s : DataState) (loc : Loc) (bytes : List Byte) : s.Emits bytes s.symbols (s.push loc bytes) :=
  ⟨fun h => if_neg (Nat.not_lt.2 h), fun h => ⟨loc, if_pos h⟩⟩

theorem reserve_emits (s : DataState) (loc : Loc) (count : Nat) (fill : Byte) :
    s.Emits (List.replicate count fill) s.symbols (s.reserve loc count fill) := by
  constructor
  · intro h
    rw [List.length_replicate] at h
    rw [reserve, if_neg (Nat.not_lt.2 h)]
    congr 2
    apply Array.ext'
    simp
  · intro h
    rw [List.length_replicate] at h
    exact ⟨loc, if_pos h⟩

theorem Emits.bind {bytes bytes' : List Byte} {symbols symbols' : Symbols} {x : Except Diagnostic DataState}
    {f : DataState → Except Diagnostic DataState} (hx : s.Emits bytes symbols x)
    (hf : s.bytes.size + bytes.length ≤ ramSize →
      Emits ⟨s.bytes ++ bytes, symbols⟩ bytes' symbols' (f ⟨s.bytes ++ bytes, symbols⟩)) :
    s.Emits (bytes ++ bytes') symbols' (x >>= f) := by
  have hsize := size_append_bytes s.bytes bytes
  constructor
  · intro h
    rw [List.length_append] at h
    have hfirst : s.bytes.size + bytes.length ≤ ramSize := by omega
    rw [hx.fits hfirst]
    have hnext := (hf hfirst).fits (by simp only [hsize]; omega)
    rw [append_append_bytes] at hnext
    exact hnext
  · intro h
    rw [List.length_append] at h
    by_cases hfirst : s.bytes.size + bytes.length ≤ ramSize
    · rw [hx.fits hfirst]
      exact (hf hfirst).overflows (by simp only [hsize]; omega)
    · obtain ⟨loc, hloc⟩ := hx.overflows (Nat.not_le.1 hfirst)
      exact ⟨loc, by rw [hloc]; rfl⟩

/-- What is added for each of some arguments is added for all of them. By induction on the arguments. -/
theorem emits_foldlM {α : Type} {f : DataState → α → Except Diagnostic DataState} {l : List α}
    {chunks : List (List Byte)}
    (h : List.Forall₂ (fun a bytes => ∀ s : DataState, s.Emits bytes s.symbols (f s a)) l chunks)
    (hs : s.bytes.size ≤ ramSize) : s.Emits chunks.flatten s.symbols (l.foldlM f s) := by
  induction h generalizing s with
  | nil => exact emits_ok hs s.symbols
  | cons hhead _ ih =>
    rw [List.foldlM_cons, List.flatten_cons]
    refine (hhead s).bind fun hfits => ih (s := ⟨_, _⟩) ?_
    rwa [size_append_bytes]

/-! ## Directives -/

theorem foldlM_push_emits (g : Int → List Byte) (ints : List (Loc × Int)) (hs : s.bytes.size ≤ ramSize) :
    s.Emits ((ints.map Prod.snd).flatMap g) s.symbols (ints.foldlM (fun s p => s.push p.1 (g p.2)) s) := by
  have hall : List.Forall₂ (fun (p : Loc × Int) bytes => ∀ s : DataState, s.Emits bytes s.symbols (s.push p.1 (g p.2)))
      ints (ints.map fun p => g p.2) :=
    List.forall₂_map_right_iff.2 (List.forall₂_same.2 fun p _ s => s.push_emits p.1 (g p.2))
  have hemits := emits_foldlM hall hs
  rwa [← List.flatMap_def, ← List.flatMap_map] at hemits

theorem foldlM_pushText_emits (ended : Bool) {ts : List Token} {bodies : List (List Byte)}
    (h : List.Forall₂ (fun t bs => ∃ body, t.lexeme = .str body ∧ Unescapes body.toList bs) ts bodies)
    (hs : s.bytes.size ≤ ramSize) :
    s.Emits (DataItem.texts ended bodies).emitted s.symbols (ts.foldlM (pushText ended) s) := by
  have hall : List.Forall₂ (fun t bytes => ∀ s : DataState, s.Emits bytes s.symbols (pushText ended s t)) ts
      (bodies.map fun body => if ended then body ++ [0] else body) := by
    refine List.forall₂_map_right_iff.2 (h.imp fun t bs ht s => ?_)
    obtain ⟨body, hbody, hbs⟩ := ht
    have hbytes := unescaped_eq_ok_iff.2 hbs
    rw [pushText, hbody]
    dsimp only
    rw [hbytes]
    exact s.push_emits _ _
  have hemits := emits_foldlM hall hs
  rwa [← List.flatMap_def] at hemits

theorem define_emits {name : Token} {n : String} (hname : name.lexeme = .ref n) {b : Binding}
    (h : s.symbols.Admits n b) (hs : s.bytes.size ≤ ramSize) :
    s.Emits [] (s.symbols.bindAll [(n, b)]) (s.define name b) := by
  have hdefine : s.define name b = .ok { s with symbols := s.symbols.bind n b } := by
    rw [define, Token.text, hname, Symbols.define_eq_ok_iff.2 ⟨h, rfl⟩]
  rw [hdefine]
  exact emits_ok hs _

variable {dir : Directive} {head : Token} {args : List Token} {item : DataItem}

theorem space_emits (s : DataState) (head : Token) {ints : List (Loc × Int)} {loc : Loc} {count : Nat} {fill : Int}
    (h : ints = [(loc, (count : Int))] ∧ fill = 0 ∨ ∃ loc', ints = [(loc, (count : Int)), (loc', fill)]) :
    s.Emits (DataItem.space count fill).emitted s.symbols (s.space head ints) := by
  have hspace : s.space head ints = s.reserve loc count (BitVec.ofInt 8 fill) := by
    have hcount : ¬ (count : Int) < 0 := by omega
    obtain ⟨rfl, rfl⟩ | ⟨loc', rfl⟩ := h
    · simp only [space, hcount, if_false, Int.toNat_natCast]
    · simp only [space, hcount, if_false, Int.toNat_natCast]
  rw [hspace, ofInt_eq_byteOf]
  exact s.reserve_emits loc count _

theorem constant_emits (dir : Directive) (head : Token) {name comma value t : Token} {more : List Token} {n : String}
    {v : Int} (hname : name.lexeme = .ref n) (hcomma : comma.lexeme = .comma)
    (hvalue : resolveArgs s.symbols .value (value :: more) = .ok [t]) (hv : t.lexeme = .int v)
    (hadmits : s.symbols.Admits n (.constant v)) (hs : s.bytes.size ≤ ramSize) :
    s.Emits [] (s.symbols.bindAll [(n, .constant v)]) (s.constant dir head (name :: comma :: value :: more)) := by
  obtain ⟨lexeme, raw, loc⟩ := comma
  obtain rfl : lexeme = .comma := hcomma
  have hkind : ¬ name.kind ≠ .ref := not_not.2 (kind_eq_ref_iff.2 ⟨n, hname⟩)
  rw [DataState.constant]
  dsimp only
  rw [if_neg hkind, hvalue]
  show s.Emits _ _ (integer t >>= fun v => s.define name (.constant v))
  rw [integer_eq_ok_iff.2 hv]
  exact define_emits hname hadmits hs

theorem registerAlias_emits (head : Token) {name separator reg : Token} {n : String} {r : Nat}
    (hname : name.lexeme = .ref n) (hseparator : separator.raw = "=" ∨ separator.kind = .comma)
    (hreg : s.register reg = .ok r) (hadmits : s.symbols.Admits n (.registerAlias r))
    (hs : s.bytes.size ≤ ramSize) :
    s.Emits [] (s.symbols.bindAll [(n, .registerAlias r)]) (s.registerAlias head [name, separator, reg]) := by
  have hkind : ¬ name.kind ≠ .ref := not_not.2 (kind_eq_ref_iff.2 ⟨n, hname⟩)
  have hseparated : (separator.raw == "=" || separator.kind == .comma) = true := by
    rwa [Bool.or_eq_true, beq_iff_eq, beq_iff_eq]
  rw [DataState.registerAlias]
  dsimp only
  rw [if_pos hseparated, if_neg hkind]
  show s.Emits _ _ (s.register reg >>= fun r => s.define name (.registerAlias r))
  rw [hreg]
  exact define_emits hname hadmits hs

/-- A directive that stands for an item adds its bytes and binds its name. -/
theorem directive_emits (hdir : head.lexeme = .dir dir) (h : Reads s.symbols (head :: args) item)
    (hadmits : ∀ d ∈ item.bindings, s.symbols.Admits d.1 d.2) (hs : s.bytes.size ≤ ramSize) :
    s.Emits item.emitted (s.symbols.bindAll item.bindings) (s.directive dir head args) := by
  cases h with
  | @bytes _ _ values hdir' hargs =>
    obtain rfl := Lexeme.dir.inj (hdir.symm.trans hdir')
    obtain ⟨ints, hints, rfl⟩ := exists_integers .byte head hargs
    have hrun : s.directive .byte head args = ints.foldlM (fun s p => s.push p.1 [byteOf p.2]) s := by
      rw [directive, hints]
      simp only [ofInt_eq_byteOf]
      rfl
    have hemits := foldlM_push_emits (fun v => [byteOf v]) ints hs
    rw [← List.map_eq_flatMap] at hemits
    rw [hrun]
    exact hemits
  | @words _ _ values hdir' hargs =>
    obtain rfl := Lexeme.dir.inj (hdir.symm.trans hdir')
    obtain ⟨ints, hints, rfl⟩ := exists_integers .word head hargs
    have hrun : s.directive .word head args = ints.foldlM (fun s p => s.push p.1 (wordBytes p.2)) s := by
      rw [directive, hints]
      simp only [bytes_eq_wordBytes]
      rfl
    rw [hrun]
    exact foldlM_push_emits wordBytes ints hs
  | ended hdir' hargs =>
    obtain ⟨ts, hts, hbodies⟩ := hargs
    have hemits := foldlM_pushText_emits true hbodies hs
    rcases hdir' with hdir' | hdir'
    · obtain rfl := Lexeme.dir.inj (hdir.symm.trans hdir')
      rw [directive, values_eq_ok_iff.2 hts]
      exact hemits
    · obtain rfl := Lexeme.dir.inj (hdir.symm.trans hdir')
      rw [directive, values_eq_ok_iff.2 hts]
      exact hemits
  | texts hdir' hargs =>
    obtain rfl := Lexeme.dir.inj (hdir.symm.trans hdir')
    obtain ⟨ts, hts, hbodies⟩ := hargs
    rw [directive, values_eq_ok_iff.2 hts]
    exact foldlM_pushText_emits false hbodies hs
  | space hdir' hargs =>
    obtain rfl := Lexeme.dir.inj (hdir.symm.trans hdir')
    obtain ⟨ints, hints, hvalues⟩ := exists_integers .space head hargs
    obtain ⟨⟨loc, v⟩, rfl, rfl⟩ := List.map_eq_singleton_iff.1 hvalues
    rw [directive, hints]
    exact s.space_emits head (.inl ⟨rfl, rfl⟩)
  | filled hdir' hargs =>
    obtain rfl := Lexeme.dir.inj (hdir.symm.trans hdir')
    obtain ⟨ints, hints, hvalues⟩ := exists_integers .space head hargs
    obtain ⟨⟨loc, v⟩, rest, rfl, rfl, hrest⟩ := List.map_eq_cons_iff.1 hvalues
    obtain ⟨⟨loc', w⟩, rfl, rfl⟩ := List.map_eq_singleton_iff.1 hrest
    rw [directive, hints]
    exact s.space_emits head (.inr ⟨loc', rfl⟩)
  | constant hdir' hname hcomma hvalue hv =>
    have hemits := constant_emits dir head hname hcomma hvalue hv (hadmits _ List.mem_cons_self) hs
    rcases hdir' with hdir' | hdir'
    · obtain rfl := Lexeme.dir.inj (hdir.symm.trans hdir')
      exact hemits
    · obtain rfl := Lexeme.dir.inj (hdir.symm.trans hdir')
      exact hemits
  | registerAlias hdir' hname hseparator hreg =>
    obtain rfl := Lexeme.dir.inj (hdir.symm.trans hdir')
    exact registerAlias_emits head hname hseparator (register_eq_ok_iff.2 hreg) (hadmits _ List.mem_cons_self) hs

end DataState

end Avr

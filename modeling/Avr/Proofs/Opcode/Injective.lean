import Avr.Proofs.Opcode.Codes

/-!
# Which instruction an opcode belongs to

* `lookup_of_fieldValues?` : each field of a template gets the number of its operand;
* `code?` : the code of an instruction; `exists_code` : its opcode is the template of the code, filled in;
* `isAccess` : what templates of loads and stores look like; `pointer_eq` : their fields give back the operands;
* `operands_eq_of_template`, `operands_eq_of_irregular` : within one code the opcode gives the operands back;
* `canonical_inj` : an opcode of the table belongs to one mnemonic with one list of operands.
-/

namespace Avr

open Catalog

/-- In a field wide enough for its place, operands with the same digits are the same. -/
theorem Catalog.ArgSpec.Admits.eq_of_field {s : ArgSpec} {w : Nat} {a b : Operand} (hs : s.fitsField w = true)
    (ha : s.Admits a) (hb : s.Admits b) (hfa : ∀ f, a ≠ .func f) (hfb : ∀ f, b ≠ .func f) :
    ∃ v v', a.fieldValue? = some v ∧ b.fieldValue? = some v' ∧ (v % 2 ^ w = v' % 2 ^ w → a = b) := by
  obtain ⟨kinds, c⟩ := s
  unfold fitsField at hs
  split at hs
  · next low high hkinds hc =>
    obtain rfl : kinds = _ := hkinds
    obtain rfl : c = _ := hc
    obtain ⟨n, rfl, hn⟩ := ha.reg
    obtain ⟨n', rfl, hn'⟩ := hb.reg
    refine ⟨n, n', rfl, rfl, fun h => ?_⟩
    have hnn := eq_of_emod_eq (of_decide_eq_true hs) (admitsValue_range.1 hn) (admitsValue_range.1 hn') h
    rw [Int.natCast_inj.1 hnn]
  · next low high hkinds hc =>
    obtain rfl : kinds = _ := hkinds
    obtain rfl : c = _ := hc
    obtain ⟨v, rfl, hv⟩ := ha.int
    obtain ⟨v', rfl, hv'⟩ := hb.int
    refine ⟨v, v', rfl, rfl, fun h => ?_⟩
    rw [eq_of_emod_eq (of_decide_eq_true hs) (admitsValue_range.1 hv) (admitsValue_range.1 hv') h]
  · next low high hkinds hc =>
    obtain rfl : kinds = _ := hkinds
    obtain rfl : c = _ := hc
    obtain ⟨f, rfl⟩ | ⟨v, rfl, hv⟩ := ha.intOrFunc
    · exact absurd rfl (hfa f)
    obtain ⟨f, rfl⟩ | ⟨v', rfl, hv'⟩ := hb.intOrFunc
    · exact absurd rfl (hfb f)
    refine ⟨v, v', rfl, rfl, fun h => ?_⟩
    rw [eq_of_emod_eq (of_decide_eq_true hs) (admitsValue_range.1 hv) (admitsValue_range.1 hv') h]
  · cases hs

/-! ## The numbers in the fields -/

theorem fieldValues?_cons (letter : Char) (fields : List Char) (op : Operand) (ops : List Operand) :
    fieldValues? (letter :: fields) (op :: ops) =
      if letter = '_' then fieldValues? fields ops
      else op.fieldValue?.bind fun v => (fieldValues? fields ops).map ((letter, v) :: ·) := by
  unfold fieldValues?
  rw [List.zip_cons_cons]
  by_cases h : letter = '_'
  · rw [List.filter_cons_of_neg (by simp [h]), if_pos h]
  · rw [List.filter_cons_of_pos (by simp [h]), if_neg h, List.mapM_cons]
    dsimp only
    cases op.fieldValue? with
    | none => rfl
    | some v =>
      have hstep : ∀ r : Option (List (Char × Int)),
          (do let a ← (some v).map (letter, ·); let b ← r; pure (a :: b)) = r.map ((letter, v) :: ·) := by
        intro r
        cases r <;> rfl
      exact hstep _

/-- The letters that get numbers are those of the fields, in their order. -/
theorem fieldValues?_sublist {fields : List Char} {ops : List Operand} {values : List (Char × Int)}
    (h : fieldValues? fields ops = some values) : (values.map Prod.fst).Sublist fields := by
  induction fields generalizing ops values with
  | nil =>
    cases h
    exact .slnil
  | cons letter fields ih =>
    cases ops with
    | nil =>
      cases h
      exact List.nil_sublist _
    | cons op ops =>
      rw [fieldValues?_cons] at h
      split at h
      · exact (ih h).cons _
      · obtain ⟨v, -, h⟩ := Option.bind_eq_some_iff.1 h
        obtain ⟨rest, hrest, rfl⟩ := Option.map_eq_some_iff.1 h
        exact (ih hrest).cons_cons _

theorem mem_of_fieldValues? {fields : List Char} {ops : List Operand} {values : List (Char × Int)}
    (h : fieldValues? fields ops = some values) : ∀ p ∈ values, p.1 ∈ fields :=
  fun _ hp => (fieldValues?_sublist h).subset (List.mem_map_of_mem hp)

/-- Each field gets the number of its operand. -/
theorem lookup_of_fieldValues? {fields : List Char} {ops : List Operand} {values : List (Char × Int)}
    (hnodup : fields.Nodup) (h : fieldValues? fields ops = some values) {letter : Char} {op : Operand}
    (hmem : (letter, op) ∈ fields.zip ops) (hletter : letter ≠ '_') : values.lookup letter = op.fieldValue? := by
  induction fields generalizing ops values with
  | nil => cases hmem
  | cons c fields ih =>
    cases ops with
    | nil => cases hmem
    | cons op' ops =>
      rw [List.nodup_cons] at hnodup
      rw [fieldValues?_cons] at h
      rw [List.zip_cons_cons, List.mem_cons] at hmem
      split at h
      · next hc =>
        rcases hmem with heq | hmem
        · cases heq
          exact absurd hc hletter
        · exact ih hnodup.2 h hmem
      · obtain ⟨v, hv, h⟩ := Option.bind_eq_some_iff.1 h
        obtain ⟨rest, hrest, rfl⟩ := Option.map_eq_some_iff.1 h
        rcases hmem with heq | hmem
        · cases heq
          rw [List.lookup_cons_self, hv]
        · have hne : letter ≠ c := by
            rintro rfl
            exact hnodup.1 (List.of_mem_zip hmem).1
          rw [List.lookup_cons, beq_false_of_ne hne]
          exact ih hnodup.2 hrest hmem

/-- Equal opcodes have equal low bits in each field. -/
theorem emod_eq_of_fill_eq {cs : List Char} {values values' : List (Char × Int)} (hv : Lettered values)
    (hv' : Lettered values') (h : fill cs values = fill cs values') {letter : Char} {v v' : Int}
    (hl : values.lookup letter = some v) (hl' : values'.lookup letter = some v') :
    v % 2 ^ cs.count letter = v' % 2 ^ cs.count letter := by
  rw [← lowBits_inj, ← fieldBits_fill hv hl, ← fieldBits_fill hv' hl', h]

/-! ## One code -/

/-- The mode with any displacement read as zero. -/
def PointerMode.shape : PointerMode → PointerMode
  | disp _ => disp 0
  | mode => mode

/-- The pointer access of an operand, any displacement read as zero. -/
def Operand.access? : Operand → Option (Pointer × PointerMode)
  | ptr p mode => some (p, mode.shape)
  | _ => none

/-- The template of an instruction that the catalog gives none. -/
def irregularTemplate? (m : Mnemonic) (access : Option (Pointer × PointerMode)) : Option String :=
  match m, access with
  | .ADIW, none => some "10010110KKddKKKK"
  | .SBIW, none => some "10010111KKddKKKK"
  | .MOVW, none => some "00000001ddddrrrr"
  | .LD, some (p, mode) | .LDD, some (p, mode) => some (loadTemplate p mode)
  | .ST, some (p, mode) | .STD, some (p, mode) => some (storeTemplate p mode)
  | _, _ => none

def code? (m : Mnemonic) (ops : List Operand) : Option Code :=
  match m.entry.encoding with
  | .template _ bits => some ⟨m, none, bits⟩
  | .irregular =>
    let access := ops.findSome? Operand.access?
    (irregularTemplate? m access).map (⟨m, access, ·⟩)

theorem mnemonic_of_code? {m : Mnemonic} {ops : List Operand} {c : Code} (h : code? m ops = some c) :
    c.mnemonic = m := by
  unfold code? at h
  split at h
  · cases h
    rfl
  · obtain ⟨t, -, rfl⟩ := Option.map_eq_some_iff.1 h
    rfl

theorem lettered_of_fieldValues? {m : Mnemonic} {fields : List Char} {bits : String} {ops : List Operand}
    {values : List (Char × Int)} (hm : m.entry.encoding = .template fields bits)
    (h : fieldValues? fields ops = some values) : Lettered values := by
  have hfit := checked_fieldsFit m _ _ hm
  simp only [fieldsFit, Bool.and_eq_true, List.all_eq_true, bne_iff_ne] at hfit
  exact fun p hp => hfit.1.2 p.1 (mem_of_fieldValues? h p hp)

/-- Within a template of the catalog the opcode gives the operands back. -/
theorem operands_eq_of_template {m : Mnemonic} {fields : List Char} {bits : String} {ops ops' : List Operand}
    (hm : m.entry.encoding = .template fields bits) (ha : Admitted m ops) (ha' : Admitted m ops')
    (hf : ∀ f, .func f ∉ ops) (hf' : ∀ f, .func f ∉ ops') {values values' : List (Char × Int)}
    (hv : fieldValues? fields ops = some values) (hv' : fieldValues? fields ops' = some values')
    (h : fill bits.toList values = fill bits.toList values') : ops = ops' := by
  have hfit := checked_fieldsFit m _ _ hm
  simp only [fieldsFit, Bool.and_eq_true, beq_iff_eq, decide_eq_true_iff] at hfit
  obtain ⟨⟨⟨hlen, hnodup⟩, -⟩, hplaces⟩ := hfit
  unfold Admitted at ha ha'
  rw [List.forall₂_iff_get] at ha ha'
  refine List.ext_getElem (ha.1.symm.trans ha'.1) fun k hk hk' => ?_
  have hargs : k < m.entry.args.length := by omega
  have hfields : k < fields.length := by omega
  have hadm := ha.2 k hargs hk
  have hadm' := ha'.2 k hargs hk'
  rw [List.get_eq_getElem, List.get_eq_getElem] at hadm hadm'
  have hplace := List.all_eq_true.1 hplaces (fields[k], m.entry.args[k])
    (List.mem_iff_getElem.2 ⟨k, by rw [List.length_zip]; omega, List.getElem_zip⟩)
  dsimp only at hplace
  split at hplace
  · rw [beq_iff_eq] at hplace
    rw [hplace] at hadm hadm'
    rw [hadm.pointerZ, hadm'.pointerZ]
  · next hletter =>
    obtain ⟨v, v', hval, hval', heq⟩ := hadm.eq_of_field hplace hadm'
      (fun f hop => hf f (hop ▸ List.getElem_mem hk)) (fun f hop => hf' f (hop ▸ List.getElem_mem hk'))
    have hzip : (fields[k], ops[k]) ∈ fields.zip ops :=
      List.mem_iff_getElem.2 ⟨k, by rw [List.length_zip]; omega, List.getElem_zip⟩
    have hzip' : (fields[k], ops'[k]) ∈ fields.zip ops' :=
      List.mem_iff_getElem.2 ⟨k, by rw [List.length_zip]; omega, List.getElem_zip⟩
    have hlook := lookup_of_fieldValues? hnodup hv hzip hletter
    have hlook' := lookup_of_fieldValues? hnodup hv' hzip' hletter
    rw [hval] at hlook
    rw [hval'] at hlook'
    exact heq (emod_eq_of_fill_eq (lettered_of_fieldValues? hm hv) (lettered_of_fieldValues? hm hv') h hlook hlook')

theorem lettered_two {c d : Char} (v w : Int) (hc : c ≠ '0' ∧ c ≠ '1') (hd : d ≠ '0' ∧ d ≠ '1') :
    Lettered [(c, v), (d, w)] := by
  intro p hp
  rcases List.mem_cons.1 hp with rfl | hp
  · exact hc
  · rcases List.mem_cons.1 hp with rfl | hp
    · exact hd
    · cases hp

/-- Equal opcodes with two fields have equal low bits in both. -/
theorem emod_eq_of_fill_two {cs : List Char} {c d : Char} {v v' w w' : Int} (hc : c ≠ '0' ∧ c ≠ '1')
    (hd : d ≠ '0' ∧ d ≠ '1') (hcd : d ≠ c) (h : fill cs [(c, v), (d, w)] = fill cs [(c, v'), (d, w')]) :
    v % 2 ^ cs.count c = v' % 2 ^ cs.count c ∧ w % 2 ^ cs.count d = w' % 2 ^ cs.count d := by
  have hlook : ∀ x y : Int, [(c, x), (d, y)].lookup d = some y := by
    intro x y
    rw [List.lookup_cons, beq_false_of_ne hcd, List.lookup_cons_self]
  exact ⟨emod_eq_of_fill_eq (lettered_two v w hc hd) (lettered_two v' w' hc hd) h List.lookup_cons_self
      List.lookup_cons_self,
    emod_eq_of_fill_eq (lettered_two v w hc hd) (lettered_two v' w' hc hd) h (hlook v w) (hlook v' w')⟩

theorem eq_of_shape_eq {mode mode' : PointerMode} (h : mode.shape = mode'.shape) :
    mode = mode' ∨ ∃ q q', mode = .disp q ∧ mode' = .disp q' := by
  cases mode with
  | disp q =>
    cases mode' with
    | disp q' => exact .inr ⟨q, q', rfl, rfl⟩
    | _ => cases h
  | _ => cases mode' <;> first | exact .inl rfl | cases h

theorem loadTemplate_shape (p : Pointer) (mode : PointerMode) : loadTemplate p mode.shape = loadTemplate p mode := by
  cases p <;> cases mode <;> rfl

theorem storeTemplate_shape (p : Pointer) (mode : PointerMode) :
    storeTemplate p mode.shape = storeTemplate p mode := by
  cases p <;> cases mode <;> rfl

/-- Whether a template is one word of digits, five bits of a register and, where there is a displacement, its six. -/
def isAccess (mode : PointerMode) (cs : List Char) : Bool :=
  cs.length == 16 && cs.all (fun c => c == '0' || c == '1' || c == 'd' || c == 'q') && cs.count 'd' == 5 &&
    match mode with
    | .disp _ => cs.count 'q' == 6
    | _ => true

theorem isAccess_of_written {t : String} {mode : PointerMode} {cs : List Char} (ht : t = String.ofList cs)
    (hcs : isAccess mode cs = true) : isAccess mode t.toList = true := by
  rw [ht, String.toList_ofList]
  exact hcs

theorem isAccess_loadTemplate (p : Pointer) (mode : PointerMode) :
    isAccess mode (loadTemplate p mode).toList = true := by
  cases p <;> cases mode <;> exact isAccess_of_written rfl rfl

theorem isAccess_storeTemplate (p : Pointer) (mode : PointerMode) :
    isAccess mode (storeTemplate p mode).toList = true := by
  cases p <;> cases mode <;> exact isAccess_of_written rfl rfl

/-- The operands of an access by pointer are given back by the sort of access and the fields. -/
theorem access_eq {t : List Char} {n n' : Nat} {mode mode' : PointerMode} (ht : isAccess mode t = true) (hn : n ≤ 31)
    (hn' : n' ≤ 31) (hm : ∀ q, mode = .disp q → q ≤ 63) (hm' : ∀ q, mode' = .disp q → q ≤ 63)
    (hshape : mode.shape = mode'.shape)
    (h : fill t [('d', n), ('q', mode.displacement)] = fill t [('d', n'), ('q', mode'.displacement)]) :
    n = n' ∧ mode = mode' := by
  obtain ⟨hreg, hdisp⟩ := emod_eq_of_fill_two (by decide) (by decide) (by decide) h
  simp only [isAccess, Bool.and_eq_true, beq_iff_eq] at ht
  rw [ht.1.2] at hreg
  refine ⟨by omega, ?_⟩
  rcases eq_of_shape_eq hshape with heq | ⟨q, q', rfl, rfl⟩
  · exact heq
  · have hqle := hm q rfl
    have hqle' := hm' q' rfl
    simp only [beq_iff_eq] at ht
    rw [ht.2] at hdisp
    simp only [PointerMode.displacement] at hdisp
    rw [show q = q' by omega]

theorem exists_of_admits_two {m : Mnemonic} {s s' : ArgSpec} {ops : List Operand} (hm : m.entry.args = [s, s'])
    (h : Admitted m ops) : ∃ a b, ops = [a, b] ∧ s.Admits a ∧ s'.Admits b := by
  rw [Admitted, hm] at h
  obtain ⟨a, rest, ha, hrest, rfl⟩ := List.forall₂_cons_left_iff.1 h
  obtain ⟨b, rest, hb, hnil, rfl⟩ := List.forall₂_cons_left_iff.1 hrest
  obtain rfl := List.forall₂_nil_left_iff.1 hnil
  exact ⟨a, b, rfl, ha, hb⟩

theorem exists_of_admits_reg {op : Operand} (h : Place.reg.Admits op) : ∃ n, op = .reg n ∧ n ≤ 31 := by
  obtain ⟨n, rfl, hn⟩ := h.reg
  have hle := (admitsValue_range.1 hn).2
  exact ⟨n, rfl, by omega⟩

theorem eq_of_irregular {m : Mnemonic} (hm : m.entry.encoding = .irregular) (halias : m.isAlias = false) :
    m ∈ [Mnemonic.ADIW, .SBIW, .MOVW, .LD, .LDD, .ST, .STD] := by
  cases m <;> first | decide | exact absurd halias (by decide) | nomatch hm

theorem exists_of_admits_evenReg {op : Operand} (h : Place.evenReg.Admits op) :
    ∃ n, op = .reg n ∧ n % 2 = 0 ∧ n < 32 := by
  obtain ⟨n, rfl, hn⟩ := h.reg
  refine ⟨n, rfl, ?_⟩
  simp only [Constraint.admitsValue, List.contains_eq_mem, List.mem_cons, List.not_mem_nil, or_false,
    decide_eq_true_iff] at hn
  omega

theorem exists_of_admits_wordReg {op : Operand} (h : Place.wordReg.Admits op) :
    ∃ n, op = .reg n ∧ n % 2 = 0 ∧ 24 ≤ n ∧ n < 32 := by
  obtain ⟨n, rfl, hn⟩ := h.reg
  refine ⟨n, rfl, ?_⟩
  simp only [Constraint.admitsValue, List.contains_eq_mem, List.mem_cons, List.not_mem_nil, or_false,
    decide_eq_true_iff] at hn
  omega

/-- The operands of arithmetic on pairs are given back by the fields. -/
theorem word_eq {m : Mnemonic} {t : List Char} {ops ops' : List Operand} {o : List Char}
    (hm : m.entry.args = [Place.wordReg, Place.sixBits]) (hd : t.count 'd' = 2) (hK : t.count 'K' = 6)
    (henc : ∀ (n : Nat) (k : Int),
      encodeIrregular m [.reg n, .imm k] = some (fill t [('d', ((n : Int) - 24) / 2), ('K', k)]))
    (ha : Admitted m ops) (ha' : Admitted m ops') (h : encodeIrregular m ops = some o)
    (h' : encodeIrregular m ops' = some o) : ops = ops' := by
  obtain ⟨_, _, rfl, hreg, himm⟩ := exists_of_admits_two hm ha
  obtain ⟨_, _, rfl, hreg', himm'⟩ := exists_of_admits_two hm ha'
  obtain ⟨n, rfl, heven, hlow, hhigh⟩ := exists_of_admits_wordReg hreg
  obtain ⟨n', rfl, heven', hlow', hhigh'⟩ := exists_of_admits_wordReg hreg'
  obtain ⟨k, rfl, hk⟩ := himm.int
  obtain ⟨k', rfl, hk'⟩ := himm'.int
  rw [admitsValue_range] at hk hk'
  rw [henc] at h h'
  obtain ⟨hdd, hKK⟩ := emod_eq_of_fill_two (by decide) (by decide) (by decide) (Option.some.inj (h.trans h'.symm))
  rw [hd] at hdd
  rw [hK] at hKK
  rw [show n = n' by omega, show k = k' by omega]

/-- Two lower registers of pairs are given back by the fields. -/
theorem evenRegs_eq {m : Mnemonic} {t : List Char} {ops ops' : List Operand} {o : List Char}
    (hm : m.entry.args = [Place.evenReg, Place.evenReg]) (hd : t.count 'd' = 4) (hr : t.count 'r' = 4)
    (henc : ∀ n k : Nat,
      encodeIrregular m [.reg n, .reg k] = some (fill t [('d', (n : Int) / 2), ('r', (k : Int) / 2)]))
    (ha : Admitted m ops) (ha' : Admitted m ops') (h : encodeIrregular m ops = some o)
    (h' : encodeIrregular m ops' = some o) : ops = ops' := by
  obtain ⟨_, _, rfl, hfirst, hsecond⟩ := exists_of_admits_two hm ha
  obtain ⟨_, _, rfl, hfirst', hsecond'⟩ := exists_of_admits_two hm ha'
  obtain ⟨n, rfl, heven, hlt⟩ := exists_of_admits_evenReg hfirst
  obtain ⟨n', rfl, heven', hlt'⟩ := exists_of_admits_evenReg hfirst'
  obtain ⟨k, rfl, hkeven, hklt⟩ := exists_of_admits_evenReg hsecond
  obtain ⟨k', rfl, hkeven', hklt'⟩ := exists_of_admits_evenReg hsecond'
  rw [henc] at h h'
  obtain ⟨hdd, hrr⟩ := emod_eq_of_fill_two (by decide) (by decide) (by decide) (Option.some.inj (h.trans h'.symm))
  rw [hd] at hdd
  rw [hr] at hrr
  rw [show n = n' by omega, show k = k' by omega]

/-- Loads and stores are given back by the sort of access and the fields. -/
theorem pointer_eq (template : Pointer → PointerMode → String)
    (hsame : ∀ p mode, template p mode.shape = template p mode)
    (htemplate : ∀ p mode, isAccess mode (template p mode).toList = true) {n n' : Nat} {p p' : Pointer}
    {mode mode' : PointerMode} {o : List Char} (hn : n ≤ 31) (hn' : n' ≤ 31) (hm : ∀ q, mode = .disp q → q ≤ 63)
    (hm' : ∀ q, mode' = .disp q → q ≤ 63) (hacc : some (p, mode.shape) = some (p', mode'.shape))
    (h : some (fill (template p mode).toList [('d', n), ('q', mode.displacement)]) = some o)
    (h' : some (fill (template p' mode').toList [('d', n'), ('q', mode'.displacement)]) = some o) :
    n = n' ∧ p = p' ∧ mode = mode' := by
  obtain ⟨rfl, hshape⟩ := Prod.mk.inj (Option.some.inj hacc)
  rw [← hsame p mode', ← hshape, hsame] at h'
  obtain ⟨hreg, hmode⟩ := access_eq (htemplate p mode) hn hn' hm hm' hshape (Option.some.inj (h.trans h'.symm))
  exact ⟨hreg, rfl, hmode⟩

/-- Without a template of the catalog the opcode gives the operands back, once the sort of pointer access is known. -/
theorem operands_eq_of_irregular {m : Mnemonic} {ops ops' : List Operand} {o : List Char}
    (hm : m.entry.encoding = .irregular) (halias : m.isAlias = false) (ha : Admitted m ops) (ha' : Admitted m ops')
    (hacc : ops.findSome? Operand.access? = ops'.findSome? Operand.access?) (h : encodeIrregular m ops = some o)
    (h' : encodeIrregular m ops' = some o) : ops = ops' := by
  have hmem := eq_of_irregular hm halias
  simp only [List.mem_cons, List.not_mem_nil, or_false] at hmem
  rcases hmem with rfl | rfl | rfl | rfl | rfl | rfl | rfl
  · exact word_eq rfl (by decide) (by decide) (fun _ _ => rfl) ha ha' h h'
  · exact word_eq rfl (by decide) (by decide) (fun _ _ => rfl) ha ha' h h'
  · exact evenRegs_eq rfl (by decide) (by decide) (fun _ _ => rfl) ha ha' h h'
  · obtain ⟨_, _, rfl, hr, hp⟩ := exists_of_admits_two rfl ha
    obtain ⟨_, _, rfl, hr', hp'⟩ := exists_of_admits_two rfl ha'
    obtain ⟨n, rfl, hn⟩ := exists_of_admits_reg hr
    obtain ⟨n', rfl, hn'⟩ := exists_of_admits_reg hr'
    obtain ⟨p, mode, rfl, hmode⟩ := hp.pointer
    obtain ⟨p', mode', rfl, hmode'⟩ := hp'.pointer
    obtain ⟨rfl, rfl, rfl⟩ := pointer_eq loadTemplate loadTemplate_shape isAccess_loadTemplate hn hn'
      (fun q hq => absurd hq (hmode q)) (fun q hq => absurd hq (hmode' q)) hacc h h'
    rfl
  · obtain ⟨_, _, rfl, hr, hp⟩ := exists_of_admits_two rfl ha
    obtain ⟨_, _, rfl, hr', hp'⟩ := exists_of_admits_two rfl ha'
    obtain ⟨n, rfl, hn⟩ := exists_of_admits_reg hr
    obtain ⟨n', rfl, hn'⟩ := exists_of_admits_reg hr'
    obtain ⟨p, q, rfl, -, hq⟩ := hp.pointerDisp
    obtain ⟨p', q', rfl, -, hq'⟩ := hp'.pointerDisp
    obtain ⟨rfl, rfl, hmode⟩ := pointer_eq loadTemplate loadTemplate_shape isAccess_loadTemplate hn hn'
      (fun _ h => by cases h; exact hq) (fun _ h => by cases h; exact hq') hacc h h'
    rw [hmode]
  · obtain ⟨_, _, rfl, hp, hr⟩ := exists_of_admits_two rfl ha
    obtain ⟨_, _, rfl, hp', hr'⟩ := exists_of_admits_two rfl ha'
    obtain ⟨n, rfl, hn⟩ := exists_of_admits_reg hr
    obtain ⟨n', rfl, hn'⟩ := exists_of_admits_reg hr'
    obtain ⟨p, mode, rfl, hmode⟩ := hp.pointer
    obtain ⟨p', mode', rfl, hmode'⟩ := hp'.pointer
    obtain ⟨rfl, rfl, rfl⟩ := pointer_eq storeTemplate storeTemplate_shape isAccess_storeTemplate hn hn'
      (fun q hq => absurd hq (hmode q)) (fun q hq => absurd hq (hmode' q)) hacc h h'
    rfl
  · obtain ⟨_, _, rfl, hp, hr⟩ := exists_of_admits_two rfl ha
    obtain ⟨_, _, rfl, hp', hr'⟩ := exists_of_admits_two rfl ha'
    obtain ⟨n, rfl, hn⟩ := exists_of_admits_reg hr
    obtain ⟨n', rfl, hn'⟩ := exists_of_admits_reg hr'
    obtain ⟨p, q, rfl, -, hq⟩ := hp.pointerDisp
    obtain ⟨p', q', rfl, -, hq'⟩ := hp'.pointerDisp
    obtain ⟨rfl, rfl, hmode⟩ := pointer_eq storeTemplate storeTemplate_shape isAccess_storeTemplate hn hn'
      (fun _ h => by cases h; exact hq) (fun _ h => by cases h; exact hq') hacc h h'
    rw [hmode]

/-! ## All codes -/

/-- Instructions that are written in no other way: no other name, and no load or store at Y or Z themselves, which
is one with displacement zero. -/
def Canonical (m : Mnemonic) (ops : List Operand) : Prop :=
  m.isAlias = false ∧ (m = .LD ∨ m = .ST → ∀ p, p ≠ .X → .ptr p .plain ∉ ops)

theorem mem_codes {m : Mnemonic} {c : Code} (h : c ∈ m.codes) : c ∈ codes :=
  List.mem_flatMap.2 ⟨m, Mnemonic.mem_all m, h⟩

theorem exists_fieldValue? {s : ArgSpec} {w : Nat} {op : Operand} (hs : s.fitsField w = true)
    (hkind : op.kind ∈ s.kinds) : ∃ v, op.fieldValue? = some v := by
  cases op with
  | ptr p mode =>
    unfold ArgSpec.fitsField at hs
    split at hs
    · next hkinds _ => cases mode <;> simp [hkinds, Operand.kind] at hkind
    · next hkinds _ => cases mode <;> simp [hkinds, Operand.kind] at hkind
    · next hkinds _ => cases mode <;> simp [hkinds, Operand.kind] at hkind
    · cases hs
  | _ => exact ⟨_, rfl⟩

theorem fieldValues?_of_forall {fields : List Char} {ops : List Operand}
    (h : ∀ p ∈ fields.zip ops, p.1 ≠ '_' → ∃ v, p.2.fieldValue? = some v) :
    ∃ values, fieldValues? fields ops = some values := by
  induction fields generalizing ops with
  | nil => exact ⟨[], rfl⟩
  | cons letter fields ih =>
    cases ops with
    | nil => exact ⟨[], rfl⟩
    | cons op ops =>
      rw [List.zip_cons_cons, List.forall_mem_cons] at h
      obtain ⟨values, hv⟩ := ih h.2
      rw [fieldValues?_cons]
      split
      · exact ⟨values, hv⟩
      · next hletter =>
        obtain ⟨v, hop⟩ := h.1 hletter
        rw [hop, hv]
        exact ⟨_, rfl⟩

theorem exists_fieldValues? {m : Mnemonic} {fields : List Char} {bits : String} {ops : List Operand}
    (hm : m.entry.encoding = .template fields bits) (hk : Kinded m ops) :
    ∃ values, fieldValues? fields ops = some values := by
  have hfit := checked_fieldsFit m _ _ hm
  simp only [fieldsFit, Bool.and_eq_true, beq_iff_eq, decide_eq_true_iff] at hfit
  obtain ⟨⟨⟨hlen, -⟩, -⟩, hplaces⟩ := hfit
  unfold Kinded at hk
  rw [List.forall₂_iff_get] at hk
  obtain ⟨hlength, hkind⟩ := hk
  refine fieldValues?_of_forall fun p hp hletter => ?_
  obtain ⟨k, hk, rfl⟩ := List.mem_iff_getElem.1 hp
  rw [List.length_zip] at hk
  rw [List.getElem_zip] at hletter ⊢
  have hplace := List.all_eq_true.1 hplaces (fields[k], m.entry.args[k])
    (List.mem_iff_getElem.2 ⟨k, by rw [List.length_zip]; omega, List.getElem_zip⟩)
  dsimp only at hplace
  rw [if_neg hletter] at hplace
  exact exists_fieldValue? hplace (hkind k (by omega) (by omega))

/-- What an opcode without a template of the catalog is: a template of the table, filled in. -/
def IrregularCode (m : Mnemonic) (ops : List Operand) : Prop :=
  ∃ t values, ⟨m, ops.findSome? Operand.access?, t⟩ ∈ m.codes ∧
    irregularTemplate? m (ops.findSome? Operand.access?) = some t ∧ Lettered values ∧
    encodeIrregular m ops = some (fill t.toList values)

theorem irregularCode_load {m : Mnemonic} {n : Nat} {p : Pointer} {mode : PointerMode} (hm : m = .LD ∨ m = .LDD)
    (hmem : ⟨m, some (p, mode.shape), loadTemplate p mode.shape⟩ ∈ m.codes) :
    IrregularCode m [.reg n, .ptr p mode] := by
  refine ⟨loadTemplate p mode.shape, [('d', n), ('q', mode.displacement)], hmem, ?_,
    lettered_two _ _ (by decide) (by decide), ?_⟩
  · rcases hm with rfl | rfl <;> rfl
  · rw [loadTemplate_shape]
    rcases hm with rfl | rfl <;> rfl

theorem irregularCode_store {m : Mnemonic} {n : Nat} {p : Pointer} {mode : PointerMode} (hm : m = .ST ∨ m = .STD)
    (hmem : ⟨m, some (p, mode.shape), storeTemplate p mode.shape⟩ ∈ m.codes) :
    IrregularCode m [.ptr p mode, .reg n] := by
  refine ⟨storeTemplate p mode.shape, [('d', n), ('q', mode.displacement)], hmem, ?_,
    lettered_two _ _ (by decide) (by decide), ?_⟩
  · rcases hm with rfl | rfl <;> rfl
  · rw [storeTemplate_shape]
    rcases hm with rfl | rfl <;> rfl

/-- The accesses that are no displacement are those of the table, but for Y and Z alone. -/
theorem mem_movingAccesses {p : Pointer} {mode : PointerMode} (hmode : ∀ q, mode ≠ .disp q)
    (hplain : p ≠ .X → mode ≠ .plain) : (p, mode.shape) ∈ movingAccesses := by
  cases mode with
  | disp q => exact absurd rfl (hmode q)
  | plain =>
    cases p with
    | X => decide
    | Y | Z => exact absurd rfl (hplain (by decide))
  | _ => cases p <;> decide

theorem mem_displacedAccesses {p : Pointer} (hp : p ≠ .X) (q : Nat) :
    (p, (PointerMode.disp q).shape) ∈ displacedAccesses := by
  cases p with
  | X => exact absurd rfl hp
  | Y | Z => simp [displacedAccesses, PointerMode.shape]

theorem irregularCode {m : Mnemonic} {ops : List Operand} (hm : m.entry.encoding = .irregular) (hc : Canonical m ops)
    (ha : Admitted m ops) : IrregularCode m ops := by
  obtain ⟨halias, hplain⟩ := hc
  have hmem := eq_of_irregular hm halias
  simp only [List.mem_cons, List.not_mem_nil, or_false] at hmem
  rcases hmem with rfl | rfl | rfl | rfl | rfl | rfl | rfl
  · obtain ⟨_, _, rfl, hreg, himm⟩ := exists_of_admits_two rfl ha
    obtain ⟨n, rfl, -⟩ := hreg.reg
    obtain ⟨k, rfl, -⟩ := himm.int
    exact ⟨_, _, .head _, rfl, lettered_two _ _ (by decide) (by decide), rfl⟩
  · obtain ⟨_, _, rfl, hreg, himm⟩ := exists_of_admits_two rfl ha
    obtain ⟨n, rfl, -⟩ := hreg.reg
    obtain ⟨k, rfl, -⟩ := himm.int
    exact ⟨_, _, .head _, rfl, lettered_two _ _ (by decide) (by decide), rfl⟩
  · obtain ⟨_, _, rfl, hd, hr⟩ := exists_of_admits_two rfl ha
    obtain ⟨n, rfl, -⟩ := hd.reg
    obtain ⟨k, rfl, -⟩ := hr.reg
    exact ⟨_, _, .head _, rfl, lettered_two _ _ (by decide) (by decide), rfl⟩
  · obtain ⟨_, _, rfl, hr, hp⟩ := exists_of_admits_two rfl ha
    obtain ⟨n, rfl, -⟩ := hr.reg
    obtain ⟨p, mode, rfl, hmode⟩ := hp.pointer
    have hacc := mem_movingAccesses hmode fun hpX hm => hplain (.inl rfl) p hpX (by simp [hm])
    exact irregularCode_load (.inl rfl)
      (List.mem_map_of_mem (f := fun a => Code.mk .LD (some a) (loadTemplate a.1 a.2)) hacc)
  · obtain ⟨_, _, rfl, hr, hp⟩ := exists_of_admits_two rfl ha
    obtain ⟨n, rfl, -⟩ := hr.reg
    obtain ⟨p, q, rfl, hpX, -⟩ := hp.pointerDisp
    exact irregularCode_load (.inr rfl) (List.mem_map.2 ⟨_, mem_displacedAccesses hpX q, rfl⟩)
  · obtain ⟨_, _, rfl, hp, hr⟩ := exists_of_admits_two rfl ha
    obtain ⟨n, rfl, -⟩ := hr.reg
    obtain ⟨p, mode, rfl, hmode⟩ := hp.pointer
    have hacc := mem_movingAccesses hmode fun hpX hm => hplain (.inr rfl) p hpX (by simp [hm])
    exact irregularCode_store (.inl rfl) (List.mem_map.2 ⟨_, hacc, rfl⟩)
  · obtain ⟨_, _, rfl, hp, hr⟩ := exists_of_admits_two rfl ha
    obtain ⟨n, rfl, -⟩ := hr.reg
    obtain ⟨p, q, rfl, hpX, -⟩ := hp.pointerDisp
    exact irregularCode_store (.inr rfl) (List.mem_map.2 ⟨_, mem_displacedAccesses hpX q, rfl⟩)

/-- A canonical instruction has a code in the table, and its opcode is the template of the code, filled in. -/
theorem exists_code {m : Mnemonic} {ops : List Operand} (hc : Canonical m ops) (ha : Admitted m ops) :
    ∃ c ∈ codes, code? m ops = some c ∧
      ∃ values, Lettered values ∧ encode m ops = some (String.ofList (fill c.template.toList values)) := by
  unfold code? encode
  cases hm : m.entry.encoding with
  | template fields bits =>
    obtain ⟨values, hv⟩ := exists_fieldValues? hm ha.kinded
    refine ⟨⟨m, none, bits⟩, mem_codes (m := m) ?_, rfl, values, lettered_of_fieldValues? hm hv, ?_⟩
    · unfold Mnemonic.codes
      rw [hc.1, hm]
      exact List.mem_singleton_self _
    · dsimp only
      rw [hv]
      rfl
  | irregular =>
    obtain ⟨t, values, hmem, ht, hv, henc⟩ := irregularCode hm hc ha
    dsimp only
    rw [ht, henc]
    exact ⟨_, mem_codes hmem, rfl, values, hv, rfl⟩

/-- The opcode of a canonical instruction belongs to no other one. -/
theorem canonical_inj {m m' : Mnemonic} {ops ops' : List Operand} (hc : Canonical m ops) (hc' : Canonical m' ops')
    (ha : Admitted m ops) (ha' : Admitted m' ops') (hf : ∀ f, .func f ∉ ops) (hf' : ∀ f, .func f ∉ ops')
    (h : encode m ops = encode m' ops') : m = m' ∧ ops = ops' := by
  obtain ⟨c, hmem, hcode, values, hv, henc⟩ := exists_code hc ha
  obtain ⟨c', hmem', hcode', values', hv', henc'⟩ := exists_code hc' ha'
  have hfill : fill c.template.toList values = fill c'.template.toList values' :=
    String.ofList_injective (Option.some.inj (henc.symm.trans (h.trans henc')))
  have hcc : c = c' := codes_clash hmem hmem' (fits_fill _ hv) (hfill ▸ fits_fill _ hv') List.prefix_rfl
  subst hcc
  obtain rfl : m = m' := (mnemonic_of_code? hcode).symm.trans (mnemonic_of_code? hcode')
  refine ⟨rfl, ?_⟩
  unfold encode at henc henc'
  unfold code? at hcode hcode'
  cases hm : m.entry.encoding with
  | template fields bits =>
    rw [hm] at henc henc'
    obtain ⟨vs, hvs, hs⟩ := Option.map_eq_some_iff.1 henc
    obtain ⟨vs', hvs', hs'⟩ := Option.map_eq_some_iff.1 henc'
    exact operands_eq_of_template hm ha ha' hf hf' hvs hvs'
      ((String.ofList_injective hs).trans (hfill.trans (String.ofList_injective hs').symm))
  | irregular =>
    rw [hm] at henc henc' hcode hcode'
    obtain ⟨t, -, ht⟩ := Option.map_eq_some_iff.1 hcode
    obtain ⟨t', -, ht'⟩ := Option.map_eq_some_iff.1 hcode'
    obtain ⟨os, hos, hs⟩ := Option.map_eq_some_iff.1 henc
    obtain ⟨os', hos', hs'⟩ := Option.map_eq_some_iff.1 henc'
    rw [String.ofList_injective hs] at hos
    rw [String.ofList_injective hs', ← hfill] at hos'
    exact operands_eq_of_irregular hm hc.1 ha ha' (congrArg Code.access (ht.trans ht'.symm)) hos hos'

end Avr

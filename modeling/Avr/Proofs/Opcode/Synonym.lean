import Avr.Proofs.Opcode.Injective

/-!
# Instructions with two names

* `fill_congr`, `fill_perm` : the order of the fields of a template does not matter;
* `Synonym` : an instruction written under another name, or a load or store without displacement, beside the one
  it is;
* `Synonym.encode_eq` : both have the same opcode;
* `Synonym.admitted`, `Synonym.canonical` : the second one is admitted if the first one is, and is canonical;
* `canonical_or_synonym` : every admitted instruction is canonical or another way to write one that is.
-/

namespace Avr

open Catalog

def branchMnemonic (v : Bool) : Mnemonic := if v then .BRBS else .BRBC

def flagMnemonic (v : Bool) : Mnemonic := if v then .BSET else .BCLR

/-- The first instruction is another way to write the second one. -/
inductive Synonym : Mnemonic → List Operand → Mnemonic → List Operand → Prop
  | lsl (n : Nat) : Synonym .LSL [.reg n] .ADD [.reg n, .reg n]
  | rol (n : Nat) : Synonym .ROL [.reg n] .ADC [.reg n, .reg n]
  | clr (n : Nat) : Synonym .CLR [.reg n] .EOR [.reg n, .reg n]
  | tst (n : Nat) : Synonym .TST [.reg n] .AND [.reg n, .reg n]
  | ser (n : Nat) : Synonym .SER [.reg n] .LDI [.reg n, .imm 255]
  | sbr (n : Nat) (k : Int) : Synonym .SBR [.reg n, .imm k] .ORI [.reg n, .imm k]
  | cbr (n : Nat) (k : Int) : Synonym .CBR [.reg n, .imm k] .ANDI [.reg n, .imm (255 - k)]
  | load (n : Nat) {p : Pointer} (hp : p ≠ .X) : Synonym .LD [.reg n, .ptr p .plain] .LDD [.reg n, .ptr p (.disp 0)]
  | store (n : Nat) {p : Pointer} (hp : p ≠ .X) : Synonym .ST [.ptr p .plain, .reg n] .STD [.ptr p (.disp 0), .reg n]
  | branch {m : Mnemonic} {b : StatusBit} {v : Bool} (h : m.branchCondition? = some (b, v)) (k : Int) :
    Synonym m [.imm k] (branchMnemonic v) [.imm b.index, .imm k]
  | flag {m : Mnemonic} {b : StatusBit} {v : Bool} (h : m.flagEffect? = some (b, v)) :
    Synonym m [] (flagMnemonic v) [.imm b.index]

/-! ## Opcodes -/

/-- What is filled in depends only on the number that each letter has. -/
theorem fill_congr {values values' : List (Char × Int)} (hv : Lettered values) (hv' : Lettered values')
    (h : ∀ c, values.lookup c = values'.lookup c) (cs : List Char) : fill cs values = fill cs values' := by
  induction cs with
  | nil => rw [fill_nil, fill_nil]
  | cons c cs ih => rw [fill_cons hv, fill_cons hv', ih, placed, placed, h]

/-- The order in which fields are filled in does not matter. -/
theorem fill_perm {values values' : List (Char × Int)} (h : values.Perm values') (hv : Lettered values)
    (hnodup : (values.map Prod.fst).Nodup) (cs : List Char) : fill cs values = fill cs values' :=
  fill_congr hv (fun p hp => hv p (h.mem_iff.2 hp)) (lookup_perm h hnodup) cs

theorem fill_swap {c d : Char} (hc : c ≠ '0' ∧ c ≠ '1') (hd : d ≠ '0' ∧ d ≠ '1') (hcd : c ≠ d) (v w : Int)
    (cs : List Char) : fill cs [(c, v), (d, w)] = fill cs [(d, w), (c, v)] := by
  refine fill_perm (.swap _ _ []) (lettered_two v w hc hd) ?_ cs
  simp [hcd]

theorem template_branch {m : Mnemonic} {b : StatusBit} {v : Bool} (h : m.branchCondition? = some (b, v)) :
    ∃ bits bits', m.entry.encoding = .template ['k'] bits ∧
      (branchMnemonic v).entry.encoding = .template ['s', 'k'] bits' ∧
      bits.toList = fillField 's' b.index bits'.toList := by
  cases m <;> cases h
  all_goals exact ⟨_, _, rfl, rfl, by decide⟩

theorem template_flag {m : Mnemonic} {b : StatusBit} {v : Bool} (h : m.flagEffect? = some (b, v)) :
    ∃ bits bits', m.entry.encoding = .template [] bits ∧ (flagMnemonic v).entry.encoding = .template ['s'] bits' ∧
      bits.toList = fillField 's' b.index bits'.toList := by
  cases m <;> cases h
  all_goals exact ⟨_, _, rfl, rfl, by decide⟩

/-- A constant and its complement have complementary low bits. -/
theorem emod_complement (k : Int) : (-k - 1) % 2 ^ 8 = (255 - k) % 2 ^ 8 := by omega

theorem fill_ser (n : Nat) : fill "11101111dddd1111".toList [('d', n)] =
    fill "1110KKKKddddKKKK".toList [('d', n), ('K', 255)] := by
  have hK : fillField 'K' 255 "1110KKKKddddKKKK".toList = "11101111dddd1111".toList := by decide
  rw [fill_swap (by decide) (by decide) (by decide), ← hK]
  rfl

theorem fill_cbr (n : Nat) (k : Int) : fill "0111KKKKddddKKKK".toList [('d', n), ('K', -k - 1)] =
    fill "0111KKKKddddKKKK".toList [('d', n), ('K', 255 - k)] := by
  have hcount : "0111KKKKddddKKKK".toList.count 'K' = 8 := by decide
  refine fillField_congr _ ?_
  rw [count_fillField _ _ (by decide) (by decide) (by decide), hcount]
  exact emod_complement k

/-- A pointer without displacement has the digits of one with displacement zero. -/
theorem template_plain {p : Pointer} (hp : p ≠ .X) :
    fillField 'q' 0 (loadTemplate p (.disp 0)).toList = (loadTemplate p .plain).toList ∧
      fillField 'q' 0 (storeTemplate p (.disp 0)).toList = (storeTemplate p .plain).toList := by
  cases p with
  | X => exact absurd rfl hp
  | Y | Z => decide

/-- A field is filled in once. -/
theorem fillField_fillField {letter : Char} (h0 : letter ≠ '0') (h1 : letter ≠ '1') (v w : Int) (cs : List Char) :
    fillField letter v (fillField letter w cs) = fillField letter w cs := by
  induction cs with
  | nil => rfl
  | cons c cs ih =>
    have hne : (if c = letter then digit (bitAt w (cs.count letter)) else c) ≠ letter := by
      split
      · rcases digit_eq (bitAt w (cs.count letter)) with h | h <;> rw [h]
        · exact h0.symm
        · exact h1.symm
      · next hc => exact hc
    rw [fillField, fillField, if_neg hne, ih]

theorem fill_plain {t t' : List Char} (ht : fillField 'q' 0 t' = t) (n : Nat) :
    fill t [('d', n), ('q', 0)] = fill t' [('d', n), ('q', 0)] := by
  have hzero : fillField 'q' 0 t = t := by rw [← ht, fillField_fillField (by decide) (by decide)]
  rw [fill_swap (by decide) (by decide) (by decide), fill_swap (by decide) (by decide) (by decide) _ _ t']
  change fillField 'd' n (fillField 'q' 0 t) = fillField 'd' n (fillField 'q' 0 t')
  rw [hzero, ht]

/-- Both ways to write an instruction have the same opcode. -/
theorem Synonym.encode_eq {m m' : Mnemonic} {ops ops' : List Operand} (h : Synonym m ops m' ops') :
    encode m ops = encode m' ops' := by
  cases h with
  | lsl n => rfl
  | rol n => rfl
  | clr n => rfl
  | tst n => rfl
  | ser n => exact congrArg (fun o => some (String.ofList o)) (fill_ser n)
  | sbr n k => rfl
  | cbr n k => exact congrArg (fun o => some (String.ofList o)) (fill_cbr n k)
  | load n hp => exact congrArg (fun o => some (String.ofList o)) (fill_plain (template_plain hp).1 n)
  | store n hp => exact congrArg (fun o => some (String.ofList o)) (fill_plain (template_plain hp).2 n)
  | @branch m b v h k =>
    obtain ⟨bits, bits', hm, hm', hbits⟩ := template_branch h
    unfold encode
    rw [hm, hm']
    change some (String.ofList (fillField 'k' k bits.toList)) =
      some (String.ofList (fillField 'k' k (fillField 's' b.index bits'.toList)))
    rw [hbits]
  | @flag m b v h =>
    obtain ⟨bits, bits', hm, hm', hbits⟩ := template_flag h
    unfold encode
    rw [hm, hm']
    change some (String.ofList bits.toList) = some (String.ofList (fillField 's' b.index bits'.toList))
    rw [hbits]

/-! ## Operands -/

theorem admits_imm {low high v : Int} (hv : low ≤ v ∧ v ≤ high) : ArgSpec.Admits ⟨[.int], .range low high⟩ (.imm v) :=
  ⟨rfl, .inr ⟨rfl, admitsValue_range.2 hv⟩, fun _ h => by cases h⟩

theorem admits_bit (b : StatusBit) : Place.bit.Admits (.imm b.index) := by
  cases b <;> exact admits_imm (by decide)

theorem admits_displaced {p : Pointer} (hp : p ≠ .X) : Place.pointerDisp.Admits (.ptr p (.disp 0)) := by
  refine ⟨rfl, .inr ⟨rfl, rfl⟩, fun q h => ?_⟩
  cases h
  exact hp rfl

theorem args_branch {m : Mnemonic} {b : StatusBit} {v : Bool} (h : m.branchCondition? = some (b, v)) :
    m.entry.args = [Place.near] ∧ (branchMnemonic v).entry.args = [Place.bit, Place.near] := by
  cases m <;> cases h <;> exact ⟨rfl, rfl⟩

theorem args_flag {m : Mnemonic} {b : StatusBit} {v : Bool} (h : m.flagEffect? = some (b, v)) :
    m.entry.args = [] ∧ (flagMnemonic v).entry.args = [Place.bit] := by
  cases m <;> cases h <;> exact ⟨rfl, rfl⟩

theorem Synonym.admitted {m m' : Mnemonic} {ops ops' : List Operand} (h : Synonym m ops m' ops')
    (ha : Admitted m ops) : Admitted m' ops' := by
  unfold Admitted at ha ⊢
  cases h with
  | lsl n | rol n | clr n | tst n =>
    obtain ⟨hn, -⟩ := List.forall₂_cons.1 ha
    exact .cons hn (.cons hn .nil)
  | ser n =>
    obtain ⟨hn, -⟩ := List.forall₂_cons.1 ha
    exact .cons hn (.cons (admits_imm (by decide)) .nil)
  | sbr n k => exact ha
  | cbr n k =>
    obtain ⟨hn, hrest⟩ := List.forall₂_cons.1 ha
    obtain ⟨hk, -⟩ := List.forall₂_cons.1 hrest
    have hrange := admitsValue_range.1 (hk.admitsValue rfl)
    exact .cons hn (.cons (admits_imm (by omega)) .nil)
  | load n hp =>
    obtain ⟨hn, -⟩ := List.forall₂_cons.1 ha
    exact .cons hn (.cons (admits_displaced hp) .nil)
  | store n hp =>
    obtain ⟨-, hrest⟩ := List.forall₂_cons.1 ha
    obtain ⟨hn, -⟩ := List.forall₂_cons.1 hrest
    exact .cons (admits_displaced hp) (.cons hn .nil)
  | @branch m b v h k =>
    rw [(args_branch h).1] at ha
    rw [(args_branch h).2]
    obtain ⟨hk, -⟩ := List.forall₂_cons.1 ha
    exact .cons (admits_bit b) (.cons hk .nil)
  | @flag m b v h =>
    rw [(args_flag h).2]
    exact .cons (admits_bit b) .nil

theorem Synonym.canonical {m m' : Mnemonic} {ops ops' : List Operand} (h : Synonym m ops m' ops') :
    Canonical m' ops' := by
  cases h with
  | @branch m b v h k => cases v <;> exact ⟨rfl, fun h => by rcases h with h | h <;> cases h⟩
  | @flag m b v h => cases v <;> exact ⟨rfl, fun h => by rcases h with h | h <;> cases h⟩
  | _ => exact ⟨rfl, fun h => by rcases h with h | h <;> cases h⟩

theorem Synonym.func_not_mem {m m' : Mnemonic} {ops ops' : List Operand} (h : Synonym m ops m' ops')
    (f : PseudoFunc) : .func f ∉ ops' := by
  cases h <;> simp

theorem exists_of_admits_one {m : Mnemonic} {s : ArgSpec} {ops : List Operand} (hm : m.entry.args = [s])
    (h : Admitted m ops) : ∃ a, ops = [a] ∧ s.Admits a := by
  rw [Admitted, hm] at h
  obtain ⟨a, rest, ha, hnil, rfl⟩ := List.forall₂_cons_left_iff.1 h
  obtain rfl := List.forall₂_nil_left_iff.1 hnil
  exact ⟨a, rfl, ha⟩

theorem exists_synonym_of_alias {m : Mnemonic} {ops : List Operand} (halias : m.isAlias = true) (ha : Admitted m ops) :
    ∃ m' ops', Synonym m ops m' ops' := by
  unfold Mnemonic.isAlias at halias
  rw [Bool.or_eq_true, Bool.or_eq_true] at halias
  rcases halias with (hbranch | hflag) | hmem
  · obtain ⟨⟨b, v⟩, h⟩ := Option.isSome_iff_exists.1 hbranch
    obtain ⟨_, rfl, hk⟩ := exists_of_admits_one (args_branch h).1 ha
    obtain ⟨k, rfl, -⟩ := hk.int
    exact ⟨_, _, .branch h k⟩
  · obtain ⟨⟨b, v⟩, h⟩ := Option.isSome_iff_exists.1 hflag
    rw [Admitted, (args_flag h).1, List.forall₂_nil_left_iff] at ha
    subst ha
    exact ⟨_, _, .flag h⟩
  · rw [List.contains_iff_mem] at hmem
    simp only [List.mem_cons, List.not_mem_nil, or_false] at hmem
    rcases hmem with rfl | rfl | rfl | rfl | rfl | rfl | rfl
    · obtain ⟨_, rfl, hn⟩ := exists_of_admits_one rfl ha
      obtain ⟨n, rfl, -⟩ := hn.reg
      exact ⟨_, _, .ser n⟩
    · obtain ⟨_, _, rfl, hn, hk⟩ := exists_of_admits_two rfl ha
      obtain ⟨n, rfl, -⟩ := hn.reg
      obtain ⟨k, rfl, -⟩ := hk.int
      exact ⟨_, _, .sbr n k⟩
    · obtain ⟨_, _, rfl, hn, hk⟩ := exists_of_admits_two rfl ha
      obtain ⟨n, rfl, -⟩ := hn.reg
      obtain ⟨k, rfl, -⟩ := hk.int
      exact ⟨_, _, .cbr n k⟩
    · obtain ⟨_, rfl, hn⟩ := exists_of_admits_one rfl ha
      obtain ⟨n, rfl, -⟩ := hn.reg
      exact ⟨_, _, .clr n⟩
    · obtain ⟨_, rfl, hn⟩ := exists_of_admits_one rfl ha
      obtain ⟨n, rfl, -⟩ := hn.reg
      exact ⟨_, _, .lsl n⟩
    · obtain ⟨_, rfl, hn⟩ := exists_of_admits_one rfl ha
      obtain ⟨n, rfl, -⟩ := hn.reg
      exact ⟨_, _, .rol n⟩
    · obtain ⟨_, rfl, hn⟩ := exists_of_admits_one rfl ha
      obtain ⟨n, rfl, -⟩ := hn.reg
      exact ⟨_, _, .tst n⟩

/-- An admitted instruction is canonical or another way to write one that is. -/
theorem canonical_or_synonym {m : Mnemonic} {ops : List Operand} (ha : Admitted m ops) :
    Canonical m ops ∨ ∃ m' ops', Synonym m ops m' ops' := by
  cases halias : m.isAlias with
  | true => exact .inr (exists_synonym_of_alias halias ha)
  | false =>
    by_cases hplain : m = .LD ∨ m = .ST → ∀ p, p ≠ .X → .ptr p .plain ∉ ops
    · exact .inl ⟨halias, hplain⟩
    · push Not at hplain
      obtain ⟨hm, p, hp, hmem⟩ := hplain
      right
      rcases hm with rfl | rfl
      · obtain ⟨_, _, rfl, hn, hptr⟩ := exists_of_admits_two rfl ha
        obtain ⟨n, rfl, -⟩ := hn.reg
        rcases List.mem_cons.1 hmem with h | h
        · cases h
        · obtain rfl := List.mem_singleton.1 h
          exact ⟨_, _, .load n hp⟩
      · obtain ⟨_, _, rfl, hptr, hn⟩ := exists_of_admits_two rfl ha
        obtain ⟨n, rfl, -⟩ := hn.reg
        rcases List.mem_cons.1 hmem with rfl | h
        · exact ⟨_, _, .store n hp⟩
        · cases List.mem_singleton.1 h

end Avr

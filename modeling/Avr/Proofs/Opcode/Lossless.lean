import Avr.Proofs.Opcode.Behaviour
import Avr.Proofs.Opcode.Fields

/-!
# What an opcode says

* `Synonym.operands_inj` : two names of one instruction with equal operands have equal operands themselves;
* `operands_eq_of_encode_eq` : for one mnemonic the opcode gives the operands back;
* `exists_filled` : an opcode is a template of the table of codes, as long as the instruction;
* `width_eq_of_starts` : an opcode starts with no other one of another width;
* `opcode_lossless` : an opcode loses no operand, and its first word fixes its width.
-/

namespace Avr

open Catalog

/-! ## Operands -/

theorem flagEffect?_of_branch {m : Mnemonic} {e : StatusBit × Bool} (h : m.branchCondition? = some e) :
    m.flagEffect? = none := by
  cases m <;> first | rfl | cases h

theorem Synonym.mnemonic_ne {m m' : Mnemonic} {ops ops' : List Operand} (h : Synonym m ops m' ops') : m ≠ m' := by
  cases h with
  | @branch m b v h k => cases m <;> cases h <;> decide
  | @flag m b v h => cases m <;> cases h <;> decide
  | _ => decide

/-- The operands of a synonym are given back by those of the instruction that it is. -/
theorem Synonym.operands_inj {m m₁ m₂ : Mnemonic} {a b c₁ c₂ : List Operand} (ha : Synonym m a m₁ c₁)
    (hb : Synonym m b m₂ c₂) (hc : c₁ = c₂) : a = b := by
  cases ha with
  | @branch _ _ _ h k =>
    cases hb with
    | @branch _ _ _ h' k' => exact (List.cons.inj hc).2
    | @flag _ _ _ h' => simp [flagEffect?_of_branch h] at h'
    | _ => cases h
  | @flag _ _ _ h =>
    cases hb with
    | @branch _ _ _ h' k' => simp [flagEffect?_of_branch h'] at h
    | @flag _ _ _ h' => rfl
    | _ => cases h
  | cbr n k =>
    cases hb with
    | cbr n' k' =>
      simp only [List.cons.injEq, Operand.reg.injEq, Operand.imm.injEq, and_true] at hc
      rw [hc.1, show k = k' by omega]
    | branch h => cases h
    | flag h => cases h
  | _ =>
    cases hb with
    | branch h => cases h
    | flag h => cases h
    | _ => simpa using hc

/-- For one mnemonic the opcode gives the operands back. -/
theorem operands_eq_of_encode_eq {m : Mnemonic} {a b : List Operand} (ha : Admitted m a) (hb : Admitted m b)
    (hfa : ∀ f, .func f ∉ a) (hfb : ∀ f, .func f ∉ b) (h : encode m a = encode m b) : a = b := by
  rcases canonical_or_synonym ha with hca | ⟨m₁, c₁, hsa⟩ <;> rcases canonical_or_synonym hb with hcb | ⟨m₂, c₂, hsb⟩
  · exact (canonical_inj hca hcb ha hb hfa hfb h).2
  · have hinj := canonical_inj hca hsb.canonical ha (hsb.admitted hb) hfa hsb.func_not_mem (h.trans hsb.encode_eq)
    exact absurd hinj.1 hsb.mnemonic_ne
  · have hinj := canonical_inj hsa.canonical hcb (hsa.admitted ha) hb hsa.func_not_mem hfb (hsa.encode_eq.symm.trans h)
    exact absurd hinj.1.symm hsa.mnemonic_ne
  · have henc : encode m₁ c₁ = encode m₂ c₂ := hsa.encode_eq.symm.trans (h.trans hsb.encode_eq)
    have hinj := canonical_inj hsa.canonical hsb.canonical (hsa.admitted ha) (hsb.admitted hb) hsa.func_not_mem
      hsb.func_not_mem henc
    exact hsa.operands_inj hsb hinj.2

/-! ## Widths -/

/-- An opcode is a template of the table, filled in, of a mnemonic with as many words. Calls of functions of the
simulator are no exception. -/
theorem exists_filled {m : Mnemonic} {ops : List Operand} (ha : Admitted m ops) :
    ∃ c ∈ codes, c.mnemonic.entry.width = m.entry.width ∧
      ∃ values, Lettered values ∧ encode m ops = some (String.ofList (fill c.template.toList values)) := by
  rcases canonical_or_synonym ha with hc | ⟨m', ops', hs⟩
  · obtain ⟨c, hmem, hcode, hfill⟩ := exists_code hc ha
    exact ⟨c, hmem, by rw [mnemonic_of_code? hcode], hfill⟩
  · obtain ⟨c, hmem, hcode, hfill⟩ := exists_code hs.canonical (hs.admitted ha)
    rw [← hs.encode_eq] at hfill
    exact ⟨c, hmem, by rw [mnemonic_of_code? hcode, (Machine.synonym_costs hs).1], hfill⟩

theorem Instruction.Accepted.exists_fits {i : Instruction} (h : i.Accepted) :
    ∃ c ∈ codes, c.mnemonic.entry.width = i.width ∧ Fits c.template.toList i.opcode.toList := by
  obtain ⟨c, hmem, hwidth, values, hv, henc⟩ := exists_filled h.admitted
  rw [h.encode, Option.some.injEq] at henc
  exact ⟨c, hmem, hwidth, by rw [henc, String.toList_ofList]; exact fits_fill _ hv⟩

/-- No opcode starts with one of another width. -/
theorem width_eq_of_starts {i j : Instruction} (hi : i.Accepted) (hj : j.Accepted)
    (h : i.opcode.toList <+: j.opcode.toList) : i.width = j.width := by
  obtain ⟨c, hmem, hwidth, hfits⟩ := hi.exists_fits
  obtain ⟨c', hmem', hwidth', hfits'⟩ := hj.exists_fits
  rw [← hwidth, ← hwidth', codes_clash hmem hmem' hfits hfits' h]

/-- The first 16 digits fix the width. -/
theorem width_eq_of_take_eq {i j : Instruction} (hi : i.Accepted) (hj : j.Accepted)
    (h : i.opcode.toList.take 16 = j.opcode.toList.take 16) : i.width = j.width := by
  have hshort : ∀ {a b : Instruction}, a.Accepted → a.opcode.toList.take 16 = b.opcode.toList.take 16 → a.width = 1 →
      a.opcode.toList <+: b.opcode.toList := by
    intro a b ha htake hwidth
    have hlength := ha.digits.1
    rw [hwidth] at hlength
    rw [List.prefix_iff_eq_take, hlength, ← htake, List.take_of_length_le hlength.le]
  rcases width_cases i with hwi | hwi
  · exact width_eq_of_starts hi hj (hshort hi h hwi)
  · rcases width_cases j with hwj | hwj
    · exact (width_eq_of_starts hj hi (hshort hj h.symm hwj)).symm
    · rw [hwi, hwj]

theorem Instruction.Accepted.length_take {i : Instruction} (h : i.Accepted) :
    (i.opcode.toList.take 16).length = 16 := by
  have hlength := h.digits.1
  rw [List.length_take, hlength]
  rcases width_cases i with hw | hw <;> omega

theorem Instruction.Accepted.digit_take {i : Instruction} (h : i.Accepted) :
    ((i.opcode.toList.take 16).map (· == '1')).map digit = i.opcode.toList.take 16 :=
  map_digit fun c hc => h.digits.2 c (List.mem_of_mem_take hc)

/-- The first word of an instruction has its first digits. -/
theorem Instruction.Accepted.digits_head {i : Instruction} (h : i.Accepted) :
    i.words.head?.map Word.digits = some (i.opcode.toList.take 16) := by
  rw [h.words_head, Option.map_some, digits_ofNat (by rw [List.length_map, h.length_take]), h.digit_take]

theorem take_eq_of_words_head_eq {i j : Instruction} (hi : i.Accepted) (hj : j.Accepted)
    (h : i.words.head? = j.words.head?) : i.opcode.toList.take 16 = j.opcode.toList.take 16 := by
  rw [← Option.some.injEq, ← hi.digits_head, ← hj.digits_head, h]

/-- An opcode loses nothing: the operands of a mnemonic are given back by it, no opcode of one word is the first
word of one of two words, and so the first word of an instruction fixes its width. -/
theorem opcode_lossless {i j : Instruction} (hi : i.Accepted) (hj : j.Accepted) :
    (i.mnemonic = j.mnemonic → (∀ f, .func f ∉ i.operands) → (∀ f, .func f ∉ j.operands) → i.opcode = j.opcode →
      i.operands = j.operands) ∧
    (i.width = 1 → j.mnemonic ∈ doubleWords → i.opcode.toList ≠ j.opcode.toList.take 16) ∧
    (i.words.head? = j.words.head? → i.width = j.width) := by
  refine ⟨fun hm hfi hfj h => ?_, fun hwidth hm h => ?_, fun h => ?_⟩
  · have ha := hi.admitted
    have hai := hi.encode
    rw [hm] at ha hai
    exact operands_eq_of_encode_eq ha hj.admitted hfi hfj (by rw [hai, hj.encode, h])
  · have hsame := width_eq_of_starts hi hj (h ▸ List.take_prefix 16 j.opcode.toList)
    rw [hwidth, Instruction.width, width_eq, if_pos hm] at hsame
    cases hsame
  · exact width_eq_of_take_eq hi hj (take_eq_of_words_head_eq hi hj h)

def popHigh : Instruction := ⟨.POP, [.reg 16], "1001000100001111", 1⟩

/-- `LDS R16, 256` as it is assembled, which starts like a `POP`. -/
def loadFirst (line : Nat) : Instruction := ⟨.LDS, [.reg 16, .imm 256], "10010001000000000000000100000000", line⟩

theorem opcode_lossless_load : popHigh.Accepted ∧ (∀ line, (loadFirst line).Accepted) ∧
    (loadFirst 1).operands = (loadFirst 2).operands ∧
      popHigh.opcode.toList ≠ (loadFirst 1).opcode.toList.take 16 := by
  have hpop : popHigh.Accepted := by
    refine ⟨⟨.POP, ⟨1, 1⟩, [⟨.reg 16, "R16", ⟨1, 5⟩⟩], 1⟩, fun t ht => ?_, by rfl⟩
    rw [List.mem_singleton.1 ht]
    trivial
  have hload : ∀ line, (loadFirst line).Accepted := fun line =>
    ⟨{ Machine.constantStatement .LDS 256 with line := line }, Machine.spelled_constantStatement .LDS 256, by rfl⟩
  refine ⟨hpop, hload, (opcode_lossless (hload 1) (hload 2)).1 rfl ?_ ?_ rfl,
    (opcode_lossless hpop (hload 1)).2.1 (by decide +kernel) (by decide)⟩
  · simp [loadFirst]
  · simp [loadFirst]

end Avr

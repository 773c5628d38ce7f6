import Avr.Text.Numeral
import Avr.Text.WhiteSpace
import Avr.Text.WordChar

/-!
# ASCII letters, digits and numerals

* `isAlpha_classes`, `isDigit_classes` : letters and digits among the characters of all scripts;
* `readNat?_toDigits` : a decimal numeral reads back as its number;
* `toList_toString_ofNat`, `toList_toString_negSucc` : integers as they are written.
-/

namespace Avr.Text

/-! ## Characters -/

/-- What holds of all ASCII characters one by one holds of each. -/
theorem of_ascii {p : Char → Bool} (h : (List.range 128).all (fun n => p (Char.ofNat n)) = true) {c : Char}
    (hc : c.toNat < 128) : p c = true := by
  have hp := List.all_eq_true.1 h c.toNat (List.mem_range.2 hc)
  rwa [Char.ofNat_toNat] at hp

theorem toNat_lt_of_isAlpha {c : Char} (h : c.isAlpha = true) : c.toNat < 128 := by
  obtain h | h : c.isUpper = true ∨ c.isLower = true := (Bool.or_eq_true _ _).mp h
  · obtain ⟨-, h⟩ : 65 ≤ c.val ∧ c.val ≤ 90 := of_decide_eq_true h
    have hle : c.toNat ≤ 90 := UInt32.le_iff_toNat_le.1 h
    omega
  · obtain ⟨-, h⟩ : 97 ≤ c.val ∧ c.val ≤ 122 := by
      change (decide (97 ≤ c.val) && decide (c.val ≤ 122)) = true at h
      rwa [Bool.and_eq_true, decide_eq_true_iff, decide_eq_true_iff] at h
    have hle : c.toNat ≤ 122 := UInt32.le_iff_toNat_le.1 h
    omega

theorem toNat_lt_of_isDigit {c : Char} (h : c.isDigit = true) : c.toNat < 128 := by
  have hle : c.toNat ≤ 57 := (Char.isDigit_iff_toNat.1 h).2
  omega

theorem isAlpha_classes {c : Char} (h : c.isAlpha = true) :
    isWordChar c = true ∧ isWhiteSpace c = false ∧ isDecimalDigit c = false := by
  have hall := of_ascii (p := fun c => !c.isAlpha || (isWordChar c && !isWhiteSpace c && !isDecimalDigit c))
    (by decide +kernel) (toNat_lt_of_isAlpha h)
  simpa [h, and_assoc] using hall

theorem isDigit_classes {c : Char} (h : c.isDigit = true) :
    isDecimalDigit c = true ∧ isWordChar c = true ∧ isWhiteSpace c = false ∧ c.isAlpha = false := by
  have hall := of_ascii (p := fun c => !c.isDigit || (isDecimalDigit c && isWordChar c && !isWhiteSpace c && !c.isAlpha))
    (by decide +kernel) (toNat_lt_of_isDigit h)
  simpa [h, and_assoc] using hall

theorem not_isDigit_of_isAlpha {c : Char} (h : c.isAlpha = true) : c.isDigit = false := by
  cases hd : c.isDigit with
  | false => rfl
  | true => exact absurd h (by rw [(isDigit_classes hd).2.2.2]; exact Bool.false_ne_true)

/-! ## Numerals -/

theorem digitValue?_of_isDigit {c : Char} (h : c.isDigit = true) : digitValue? 10 c = some (c.toNat - 48) := by
  obtain ⟨h0, h9⟩ := Char.isDigit_iff_toNat.1 h
  have hlow : '0' ≤ c := Char.le_def.2 (UInt32.le_iff_toNat_le.2 h0)
  have hhigh : c ≤ '9' := Char.le_def.2 (UInt32.le_iff_toNat_le.2 h9)
  have hvalue : c.toNat - 48 < 10 := by
    change c.toNat ≤ 57 at h9
    omega
  unfold digitValue?
  dsimp only
  rw [if_pos ⟨hlow, hhigh⟩, Option.filter_some, decide_eq_true hvalue, if_pos rfl]

theorem readDigits?_of_isDigit {cs : List Char} (h : ∀ c ∈ cs, c.isDigit = true) (acc : Nat) :
    readDigits? 10 acc cs = some (Nat.ofDigitChars 10 cs acc) := by
  induction cs generalizing acc with
  | nil => rw [readDigits?, Nat.ofDigitChars_nil]
  | cons c cs ih =>
    rw [List.forall_mem_cons] at h
    rw [readDigits?, digitValue?_of_isDigit h.1, Option.bind_some, ih h.2, Nat.ofDigitChars_cons, Nat.mul_comm]
    rfl

theorem isDigit_of_mem {n : Nat} {c : Char} (h : c ∈ Nat.toDigits 10 n) : c.isDigit = true :=
  Nat.isDigit_of_mem_toDigits (by decide) (by decide) h

/-- A decimal numeral reads back as its number. -/
theorem readNat?_toDigits (n : Nat) : readNat? 10 (Nat.toDigits 10 n) = some n := by
  have hne : (Nat.toDigits 10 n).isEmpty = false := by
    rw [List.isEmpty_eq_false_iff]
    exact Nat.toDigits_ne_nil
  rw [readNat?, hne, if_neg Bool.false_ne_true, readDigits?_of_isDigit fun _ => isDigit_of_mem,
    Nat.ofDigitChars_ten_toDigits]

theorem toList_toString_nat (n : Nat) : (toString n).toList = Nat.toDigits 10 n := Nat.toList_repr

theorem toList_toString_ofNat (n : Nat) : (toString (n : Int)).toList = Nat.toDigits 10 n := Nat.toList_repr

theorem toList_toString_negSucc (n : Nat) : (toString (Int.negSucc n)).toList = '-' :: Nat.toDigits 10 (n + 1) := by
  have htext : toString (Int.negSucc n) = "-" ++ toString (n + 1) := rfl
  rw [htext, String.toList_append, toList_toString_nat]
  rfl

end Avr.Text

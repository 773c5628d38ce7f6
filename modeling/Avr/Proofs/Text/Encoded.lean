import Mathlib.Data.List.Basic
import Avr.Text.Utf8

/-!
# The bytes of a text

* `encodeUtf8_ofList`, `encodeUtf8_append` : the bytes of a text are those of its characters in a row;
* `length_encodeUtf8` : how many there are; `encodeUtf8_inj` : no two texts have the same bytes;
* `encodeUtf8_latin1_eq_iff` : bytes shown as characters have themselves as their bytes if and only if all are ASCII;
* `ascii_of_encodeUtf8_latin1` : and if those are ASCII.
-/

namespace Avr.Text

def charBytes (c : Char) : List (BitVec 8) := (String.utf8EncodeChar c).map UInt8.toBitVec

theorem length_charBytes (c : Char) : (charBytes c).length = c.utf8Size := by
  rw [charBytes, List.length_map, String.length_utf8EncodeChar]

/-! ## Texts -/

theorem toList_loop {bytes : ByteArray} (front rest done : List UInt8) (h : bytes.data.toList = front ++ rest) :
    ByteArray.toList.loop bytes front.length done = done.reverse ++ rest := by
  have hsize : bytes.size = front.length + rest.length := by
    rw [← ByteArray.size_data, ← Array.length_toList, h, List.length_append]
  induction rest generalizing front done with
  | nil =>
    rw [ByteArray.toList.loop, if_neg (by simp [hsize]), List.append_nil]
  | cons b rest ih =>
    have hget : bytes.get! front.length = b := by
      change bytes.data[front.length]! = b
      rw [← Array.getElem!_toList, h]
      simp
    have hnext := ih (front ++ [b]) (b :: done) (by simp [h]) (by simp [hsize]; omega)
    rw [List.length_append, List.length_singleton, List.reverse_cons, List.append_assoc] at hnext
    rw [ByteArray.toList.loop, if_pos (by simp [hsize]), hget, hnext]
    rfl

theorem encodeUtf8_eq (s : String) : encodeUtf8 s = s.toByteArray.data.toList.map UInt8.toBitVec := by
  rw [encodeUtf8, String.toUTF8_eq_toByteArray]
  exact congrArg _ (toList_loop [] _ [] rfl)

/-- The bytes of a text are those of its characters in a row. -/
theorem encodeUtf8_ofList (cs : List Char) : encodeUtf8 (String.ofList cs) = cs.flatMap charBytes := by
  rw [encodeUtf8_eq, String.toByteArray_ofList, List.utf8Encode, List.data_toByteArray, List.map_flatMap]
  rfl

theorem encodeUtf8_append (s t : String) : encodeUtf8 (s ++ t) = encodeUtf8 s ++ encodeUtf8 t := by
  simp only [encodeUtf8_eq, String.toByteArray_append, ByteArray.data_append, Array.toList_append, List.map_append]

theorem length_encodeUtf8 (s : String) : (encodeUtf8 s).length = s.utf8ByteSize := by
  rw [encodeUtf8_eq, List.length_map, Array.length_toList, ByteArray.size_data, String.size_toByteArray]

theorem encodeUtf8_inj {s t : String} : encodeUtf8 s = encodeUtf8 t ↔ s = t := by
  constructor
  · intro h
    rw [encodeUtf8_eq, encodeUtf8_eq] at h
    have hbytes := List.map_injective_iff.2 (fun _ _ => UInt8.toBitVec_inj.1) h
    exact String.toByteArray_inj.1 (ByteArray.ext (Array.toList_inj.1 hbytes))
  · rintro rfl
    rfl

/-! ## Bytes shown as characters -/

/-- A byte shown as a character is encoded as itself, or takes two bytes, which are not ASCII. -/
theorem charBytes_latin1 (b : BitVec 8) : b.toNat < 0x80 ∧ charBytes (Char.ofNat b.toNat) = [b] ∨
    0x80 ≤ b.toNat ∧ (charBytes (Char.ofNat b.toNat)).length = 2 ∧
      ∃ c ∈ charBytes (Char.ofNat b.toNat), 0x80 ≤ c.toNat := by
  have hall : (List.range 256).all (fun n =>
      if n < 0x80 then (charBytes (Char.ofNat n)).map BitVec.toNat == [n]
      else (charBytes (Char.ofNat n)).length == 2 &&
        (charBytes (Char.ofNat n)).any fun c => decide (0x80 ≤ c.toNat)) = true := by
    decide +kernel
  have hb := List.all_eq_true.1 hall b.toNat (List.mem_range.2 b.isLt)
  by_cases hlow : b.toNat < 0x80
  · rw [if_pos hlow, beq_iff_eq] at hb
    exact .inl ⟨hlow, List.map_injective_iff.2 (fun _ _ => BitVec.eq_of_toNat_eq) hb⟩
  · rw [if_neg hlow, Bool.and_eq_true, beq_iff_eq, List.any_eq_true] at hb
    obtain ⟨hlength, c, hc, hhigh⟩ := hb
    exact .inr ⟨Nat.not_lt.1 hlow, hlength, c, hc, of_decide_eq_true hhigh⟩

/-- An ASCII character is encoded as its code. -/
theorem charBytes_ascii {c : Char} (hc : c.toNat < 0x80) : charBytes c = [BitVec.ofNat 8 c.toNat] := by
  have hcode : (BitVec.ofNat 8 c.toNat).toNat = c.toNat := by
    rw [BitVec.toNat_ofNat]
    omega
  have hbyte := charBytes_latin1 (BitVec.ofNat 8 c.toNat)
  rw [hcode, Char.ofNat_toNat] at hbyte
  obtain ⟨-, hbytes⟩ | ⟨hhigh, -⟩ := hbyte
  · exact hbytes
  · omega

theorem length_le_encodeUtf8_latin1 (bytes : List (BitVec 8)) :
    bytes.length ≤ (encodeUtf8 (String.ofList (latin1 bytes))).length := by
  rw [encodeUtf8_ofList]
  induction bytes with
  | nil => exact Nat.zero_le _
  | cons b bytes ih =>
    rw [latin1, List.map_cons, List.flatMap_cons, List.length_append, List.length_cons]
    unfold latin1 at ih
    obtain ⟨-, hbytes⟩ | ⟨-, hlength, -⟩ := charBytes_latin1 b
    · rw [hbytes, List.length_singleton]
      omega
    · omega

/-- Bytes shown as characters have themselves as their bytes if and only if all are ASCII. -/
theorem encodeUtf8_latin1_eq_iff {bytes : List (BitVec 8)} :
    encodeUtf8 (String.ofList (latin1 bytes)) = bytes ↔ ∀ b ∈ bytes, b.toNat < 0x80 := by
  induction bytes with
  | nil =>
    rw [encodeUtf8_ofList]
    simp [latin1]
  | cons b bytes ih =>
    have hcons : encodeUtf8 (String.ofList (latin1 (b :: bytes))) =
        charBytes (Char.ofNat b.toNat) ++ encodeUtf8 (String.ofList (latin1 bytes)) := by
      simp only [encodeUtf8_ofList, latin1, List.map_cons, List.flatMap_cons]
    rw [hcons, List.forall_mem_cons]
    obtain ⟨hlow, hbytes⟩ | ⟨hhigh, hlength, -⟩ := charBytes_latin1 b
    · rw [hbytes, List.singleton_append, List.cons.injEq, ih]
      exact ⟨fun h => ⟨hlow, h.2⟩, fun h => ⟨rfl, h.2⟩⟩
    · have hle := length_le_encodeUtf8_latin1 bytes
      constructor
      · intro heq
        have hlengths := congrArg List.length heq
        rw [List.length_append, List.length_cons] at hlengths
        omega
      · rintro ⟨hlow, -⟩
        omega

theorem ascii_of_encodeUtf8_latin1 {bytes : List (BitVec 8)}
    (h : ∀ c ∈ encodeUtf8 (String.ofList (latin1 bytes)), c.toNat < 0x80) : ∀ b ∈ bytes, b.toNat < 0x80 := by
  intro b hb
  obtain ⟨hlow, -⟩ | ⟨-, -, c, hc, hhigh⟩ := charBytes_latin1 b
  · exact hlow
  · rw [encodeUtf8_ofList] at h
    have hlow := h c (List.mem_flatMap.2 ⟨_, List.mem_map_of_mem hb, hc⟩)
    omega

end Avr.Text

import Mathlib.Data.List.Forall2
import Mathlib.Tactic.Linarith
import Mathlib.Tactic.Ring
import Avr.Encoding

/-!
# Fields of opcode templates

* `fill_cons` : a template is filled place by place;
* `lowBits` : the low bits of a number, most significant first; `lowBits_inj` : they are it modulo a power of two;
* `fieldBits` : the digits of an opcode in the places of one letter; `fieldBits_fill` : what was filled in;
* `Fits` : an opcode has the fixed digits of a template, as every filled one has;
* `clash` : two templates that no opcode fits both.
-/

namespace Avr

/-! ## Filling place by place -/

/-- The letters of fields are no digits. -/
def Lettered (values : List (Char × Int)) : Prop := ∀ p ∈ values, p.1 ≠ '0' ∧ p.1 ≠ '1'

theorem Lettered.lookup {values : List (Char × Int)} (h : Lettered values) {c : Char} (hc : c = '0' ∨ c = '1') :
    values.lookup c = none := by
  rw [List.lookup_eq_none_iff]
  intro p hp
  obtain ⟨h0, h1⟩ := h p hp
  rcases hc with rfl | rfl
  · exact bne_iff_ne.2 h0.symm
  · exact bne_iff_ne.2 h1.symm

theorem digit_eq (b : Bool) : digit b = '0' ∨ digit b = '1' := by cases b <;> decide

theorem digit_beq (b : Bool) : (digit b == '1') = b := by cases b <;> decide

theorem count_fillField {c letter : Char} (v : Int) (cs : List Char) (hc : c ≠ letter) (h0 : c ≠ '0') (h1 : c ≠ '1') :
    (fillField letter v cs).count c = cs.count c := by
  induction cs with
  | nil => rfl
  | cons d cs ih =>
    rw [fillField, List.count_cons, List.count_cons, ih]
    split
    · next hd =>
      subst hd
      have hdigit : digit (bitAt v (cs.count d)) ≠ c := by
        rcases digit_eq (bitAt v (cs.count d)) with h | h <;> rw [h]
        · exact h0.symm
        · exact h1.symm
      rw [beq_false_of_ne hdigit, beq_false_of_ne hc.symm]
    · rfl

/-- The character in a place with `n` places of its letter behind it, once the template is filled. -/
def placed (values : List (Char × Int)) (c : Char) (n : Nat) : Char :=
  match values.lookup c with
  | some v => digit (bitAt v n)
  | none => c

theorem fill_nil (values : List (Char × Int)) : fill [] values = [] := by
  induction values with
  | nil => rfl
  | cons p values ih => exact ih

theorem fill_cons {values : List (Char × Int)} (h : Lettered values) (c : Char) (cs : List Char) :
    fill (c :: cs) values = placed values c (cs.count c) :: fill cs values := by
  induction values generalizing c cs with
  | nil => rfl
  | cons p values ih =>
    obtain ⟨letter, v⟩ := p
    have hrest : Lettered values := fun q hq => h q (List.mem_cons_of_mem _ hq)
    have hstep : fill (c :: cs) ((letter, v) :: values) =
        placed values (if c = letter then digit (bitAt v (cs.count letter)) else c)
          ((fillField letter v cs).count (if c = letter then digit (bitAt v (cs.count letter)) else c)) ::
            fill (fillField letter v cs) values := ih hrest _ _
    rw [hstep]
    congr 1
    unfold placed
    rw [List.lookup_cons]
    by_cases hc : c = letter
    · subst hc
      rw [if_pos rfl, hrest.lookup (digit_eq _), beq_self_eq_true]
    · rw [if_neg hc, beq_false_of_ne hc]
      cases hlookup : values.lookup c with
      | none => rfl
      | some w =>
        have h0 : c ≠ '0' := fun h0 => by simp [hrest.lookup (.inl h0)] at hlookup
        have h1 : c ≠ '1' := fun h1 => by simp [hrest.lookup (.inr h1)] at hlookup
        simp only [count_fillField v cs hc h0 h1]

theorem length_fill (cs : List Char) {values : List (Char × Int)} (h : Lettered values) :
    (fill cs values).length = cs.length := by
  induction cs with
  | nil => rw [fill_nil]
  | cons c cs ih => rw [fill_cons h, List.length_cons, List.length_cons, ih]

/-! ## Low bits -/

/-- The `w` lowest bits of a number, most significant first. -/
def lowBits : Nat → Int → List Bool
  | 0, _ => []
  | w + 1, v => bitAt v w :: lowBits w v

@[simp] theorem length_lowBits (w : Nat) (v : Int) : (lowBits w v).length = w := by
  induction w with
  | zero => rfl
  | succ w ih => rw [lowBits, List.length_cons, ih]

theorem bitAt_toNat (v : Int) (n : Nat) : ((bitAt v n).toNat : Int) = v / 2 ^ n % 2 := by
  unfold bitAt
  rw [Int.shiftRight_eq_div_pow]
  push_cast
  rcases Int.emod_two_eq (v / 2 ^ n) with h | h <;> rw [h] <;> rfl

theorem bitAt_emod {w n : Nat} (h : n < w) (v : Int) : bitAt (v % 2 ^ w) n = bitAt v n := by
  unfold bitAt
  rw [Int.shiftRight_eq_div_pow, Int.shiftRight_eq_div_pow]
  push_cast
  obtain ⟨k, rfl⟩ : ∃ k, w = n + 1 + k := ⟨w - (n + 1), by omega⟩
  have hpos : (2 : Int) ^ n ≠ 0 := pow_ne_zero n (by decide)
  have hv : v = v % 2 ^ (n + 1 + k) + 2 ^ n * (2 * (2 ^ k * (v / 2 ^ (n + 1 + k)))) := by
    calc v = v % 2 ^ (n + 1 + k) + 2 ^ (n + 1 + k) * (v / 2 ^ (n + 1 + k)) := (Int.emod_add_mul_ediv _ _).symm
      _ = _ := by rw [pow_add, pow_succ]; ring
  have hdiv : v / 2 ^ n = v % 2 ^ (n + 1 + k) / 2 ^ n + 2 * (2 ^ k * (v / 2 ^ (n + 1 + k))) := by
    conv_lhs => rw [hv, Int.add_mul_ediv_left _ _ hpos]
  rw [hdiv, Int.add_mul_emod_self_left]

theorem bitAt_congr {w n : Nat} (hn : n < w) {v v' : Int} (h : v % 2 ^ w = v' % 2 ^ w) : bitAt v n = bitAt v' n := by
  rw [← bitAt_emod hn v, h, bitAt_emod hn v']

theorem numberOfBits_cons (b : Bool) (bs : List Bool) :
    numberOfBits (b :: bs) = b.toNat * 2 ^ bs.length + numberOfBits bs := by
  have hgo : ∀ (bs : List Bool) (n : Nat),
      bs.foldl (fun n b => 2 * n + b.toNat) n = n * 2 ^ bs.length + numberOfBits bs := by
    intro bs
    induction bs with
    | nil => intro n; simp [numberOfBits]
    | cons b bs ih =>
      intro n
      unfold numberOfBits
      rw [List.foldl_cons, List.foldl_cons, ih, ih, List.length_cons, pow_succ]
      ring
  have hcons := hgo bs b.toNat
  unfold numberOfBits at hcons ⊢
  rw [List.foldl_cons, Nat.mul_zero, Nat.zero_add, hcons]

/-- The low bits are the number modulo a power of two. -/
theorem numberOfBits_lowBits (w : Nat) (v : Int) : (numberOfBits (lowBits w v) : Int) = v % 2 ^ w := by
  induction w with
  | zero => simp [lowBits, numberOfBits]
  | succ w ih =>
    have hpos : (0 : Int) < 2 ^ w := by positivity
    have hlow := Int.emod_nonneg v hpos.ne'
    have hlt := Int.emod_lt_of_pos v hpos
    have hv : v = v / 2 ^ w % 2 * 2 ^ w + v % 2 ^ w + 2 ^ w * 2 * (v / 2 ^ w / 2) := by
      calc v = 2 ^ w * (v / 2 ^ w) + v % 2 ^ w := (Int.mul_ediv_add_emod v (2 ^ w)).symm
        _ = 2 ^ w * (2 * (v / 2 ^ w / 2) + v / 2 ^ w % 2) + v % 2 ^ w := by rw [Int.mul_ediv_add_emod (v / 2 ^ w) 2]
        _ = _ := by ring
    have hsmall : 0 ≤ v / 2 ^ w % 2 * 2 ^ w + v % 2 ^ w ∧ v / 2 ^ w % 2 * 2 ^ w + v % 2 ^ w < 2 ^ w * 2 := by
      rcases Int.emod_two_eq (v / 2 ^ w) with hb | hb <;> rw [hb] <;> constructor <;> linarith
    rw [lowBits, numberOfBits_cons, length_lowBits]
    push_cast
    rw [bitAt_toNat, ih, pow_succ]
    conv_rhs => rw [hv, Int.add_mul_emod_self_left]
    exact (Int.emod_eq_of_lt hsmall.1 hsmall.2).symm

theorem lowBits_inj {w : Nat} {v v' : Int} : lowBits w v = lowBits w v' ↔ v % 2 ^ w = v' % 2 ^ w := by
  constructor
  · intro h
    rw [← numberOfBits_lowBits, h, numberOfBits_lowBits]
  · intro h
    have hgo : ∀ n ≤ w, lowBits n v = lowBits n v' := by
      intro n hn
      induction n with
      | zero => rfl
      | succ n ih => rw [lowBits, lowBits, bitAt_congr hn h, ih (Nat.le_of_succ_le hn)]
    exact hgo w (Nat.le_refl w)

/-- Numbers in a window no wider than the field are told apart by it. -/
theorem eq_of_emod_eq {low high v v' m : Int} (hm : high - low < m) (hv : low ≤ v ∧ v ≤ high)
    (hv' : low ≤ v' ∧ v' ≤ high) (h : v % m = v' % m) : v = v' := by
  have hsub : (v - v') % m = 0 := Int.emod_eq_emod_iff_emod_sub_eq_zero.1 h
  have hdvd : m ∣ v - v' := Int.dvd_of_emod_eq_zero hsub
  have habs : |v - v'| < m := by
    rw [abs_lt]
    omega
  have hzero := Int.eq_zero_of_abs_lt_dvd hdvd habs
  omega

/-! ## Fields -/

/-- The digits of an opcode in the places that a template has for one letter. -/
def fieldBits (letter : Char) : List Char → List Char → List Bool
  | c :: cs, b :: bs => if c = letter then (b == '1') :: fieldBits letter cs bs else fieldBits letter cs bs
  | _, _ => []

/-- A field holds the low bits of the number that was filled in. -/
theorem fieldBits_fill {values : List (Char × Int)} (h : Lettered values) {letter : Char} {v : Int}
    (hv : values.lookup letter = some v) (cs : List Char) :
    fieldBits letter cs (fill cs values) = lowBits (cs.count letter) v := by
  induction cs with
  | nil => rfl
  | cons c cs ih =>
    rw [fill_cons h, fieldBits, ih, List.count_cons]
    split
    · next hc =>
      subst hc
      rw [beq_self_eq_true, if_pos rfl, lowBits, placed, hv, digit_beq]
    · next hc => rw [beq_false_of_ne hc, if_neg Bool.false_ne_true, Nat.add_zero]

/-- A field that is filled in with numbers equal up to its width gets the same digits. -/
theorem fillField_congr {letter : Char} {v v' : Int} (cs : List Char)
    (h : v % 2 ^ cs.count letter = v' % 2 ^ cs.count letter) : fillField letter v cs = fillField letter v' cs := by
  have hgo : ∀ ds : List Char, ds.count letter ≤ cs.count letter → fillField letter v ds = fillField letter v' ds := by
    intro ds
    induction ds with
    | nil => intro _; rfl
    | cons d ds ih =>
      intro hd
      rw [List.count_cons] at hd
      rw [fillField, fillField, ih (by omega)]
      split
      · next hdl =>
        rw [hdl, beq_self_eq_true, if_pos rfl] at hd
        rw [bitAt_congr (Nat.lt_of_succ_le hd) h]
      · rfl
  exact hgo cs (Nat.le_refl _)

/-! ## Fixed digits -/

/-- An opcode has as many digits as a template, and those that the template fixes. -/
def Fits (template bits : List Char) : Prop := List.Forall₂ (fun c b => c = '0' ∨ c = '1' → b = c) template bits

theorem fits_fill (cs : List Char) {values : List (Char × Int)} (h : Lettered values) : Fits cs (fill cs values) := by
  induction cs with
  | nil =>
    rw [fill_nil]
    exact .nil
  | cons c cs ih =>
    rw [fill_cons h]
    refine .cons (fun hc => ?_) ih
    rw [placed, h.lookup hc]

/-- Whether two templates fix different digits in some place. -/
def clash : List Char → List Char → Bool
  | c :: cs, d :: ds => (c == '0' && d == '1') || (c == '1' && d == '0') || clash cs ds
  | _, _ => false

theorem clash_comm (cs ds : List Char) : clash cs ds = clash ds cs := by
  induction cs generalizing ds with
  | nil => cases ds <;> rfl
  | cons c cs ih =>
    cases ds with
    | nil => rfl
    | cons d ds =>
      rw [clash, clash, ih ds, Bool.and_comm (c == '0'), Bool.and_comm (c == '1'), Bool.or_comm (d == '1' && c == '0')]

/-- No opcode fits two templates that clash, nor do an opcode and a longer one that starts with it. -/
theorem Fits.not_clash {cs ds bits bits' : List Char} (hc : Fits cs bits) (hd : Fits ds bits') (h : bits <+: bits') :
    clash cs ds = false := by
  unfold Fits at hc
  induction hc generalizing ds bits' with
  | nil => cases ds <;> rfl
  | cons hhead _ ih =>
    cases hd with
    | nil => rfl
    | cons hhead' htail =>
      obtain ⟨rfl, hrest⟩ := List.cons_prefix_cons.1 h
      rw [clash, ih htail hrest, Bool.or_false, Bool.or_eq_false_iff, Bool.and_eq_false_iff, Bool.and_eq_false_iff]
      simp only [beq_eq_false_iff_ne]
      refine ⟨?_, ?_⟩ <;> by_contra! hfixed <;> obtain ⟨rfl, rfl⟩ := hfixed
      · exact absurd ((hhead (.inl rfl)).symm.trans (hhead' (.inr rfl))) (by decide)
      · exact absurd ((hhead (.inr rfl)).symm.trans (hhead' (.inl rfl))) (by decide)

end Avr

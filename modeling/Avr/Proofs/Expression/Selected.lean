import Mathlib.Data.Int.ModEq
import Mathlib.Data.List.Infix
import Avr.Proofs.Layout.Reference

/-!
# Byte selections

* `Balanced`, `Closes`, `closeGroup?_eq_some_iff` : a group ends at the parenthesis that matches;
* `Selection`, `Part` : a selection with its group and the value of the group, and what else a list is made of;
* `resolveSelects_parts` : each selection is replaced by a byte, and the tokens between them stay;
* `flatMap_parts_of_begins` : a list in which every selection has a group with a value is made of such parts;
* `Malformed`, `resolveSelects_malformed` : a selection without a group;
* `resolveSelects_splits` : what comes of a list of tokens.
-/

namespace Avr

/-! ## Groups -/

def opened (ts : List Token) : Nat := ts.countP (·.isSign .openParen)

def closed (ts : List Token) : Nat := ts.countP (·.isSign .closeParen)

/-- The tokens close `depth` groups that are open in front of them and those that they open, never one that is not
open. -/
structure Balanced (depth : Nat) (ts : List Token) : Prop where
  closed_le : ∀ p, p <+: ts → closed p ≤ depth + opened p
  closed_eq : closed ts = depth + opened ts

theorem balanced_nil {depth : Nat} : Balanced depth [] ↔ depth = 0 := by
  constructor
  · intro h
    exact h.closed_eq.symm
  · rintro rfl
    refine ⟨fun p hp => ?_, rfl⟩
    rw [List.prefix_nil.1 hp]
    exact Nat.le_refl 0

theorem balanced_cons {depth : Nat} {t : Token} {ts : List Token} : Balanced depth (t :: ts) ↔
    closed [t] ≤ depth + opened [t] ∧ Balanced (depth + opened [t] - closed [t]) ts := by
  have hopened (us : List Token) : opened (t :: us) = opened [t] + opened us := @List.countP_append _ _ [t] us
  have hclosed (us : List Token) : closed (t :: us) = closed [t] + closed us := @List.countP_append _ _ [t] us
  constructor
  · rintro ⟨hclosed_le, hall⟩
    have hhead := hclosed_le [t] ⟨ts, rfl⟩
    refine ⟨hhead, fun p hp => ?_, ?_⟩
    · have hp := hclosed_le (t :: p) (List.cons_prefix_cons.2 ⟨rfl, hp⟩)
      rw [hopened, hclosed] at hp
      omega
    · rw [hopened, hclosed] at hall
      omega
  · rintro ⟨hhead, hclosed_le, hall⟩
    refine ⟨fun p hp => ?_, ?_⟩
    · rcases List.prefix_cons_iff.1 hp with rfl | ⟨q, rfl, hq⟩
      · exact Nat.zero_le _
      · have hq := hclosed_le q hq
        rw [hopened, hclosed]
        omega
    · rw [hopened, hclosed]
      omega

theorem balanced_open {depth : Nat} {t : Token} (h : t.isSign .openParen = true) {ts : List Token} :
    Balanced depth (t :: ts) ↔ Balanced (depth + 1) ts := by
  have hopened : opened [t] = 1 := by rw [opened, List.countP_singleton, if_pos h]
  have hclosed : closed [t] = 0 := by
    rw [closed, List.countP_singleton, Token.isSign, eq_of_beq h]
    rfl
  rw [balanced_cons, hopened, hclosed]
  exact and_iff_right (Nat.zero_le _)

theorem balanced_close {depth : Nat} {t : Token} (h : t.isSign .closeParen = true) {ts : List Token} :
    Balanced depth (t :: ts) ↔ 1 ≤ depth ∧ Balanced (depth - 1) ts := by
  have hopened : opened [t] = 0 := by
    rw [opened, List.countP_singleton, Token.isSign, eq_of_beq h]
    rfl
  have hclosed : closed [t] = 1 := by rw [closed, List.countP_singleton, if_pos h]
  rw [balanced_cons, hopened, hclosed]
  rfl

theorem balanced_other {depth : Nat} {t : Token} (hopen : ¬ t.isSign .openParen = true)
    (hclose : ¬ t.isSign .closeParen = true) {ts : List Token} : Balanced depth (t :: ts) ↔ Balanced depth ts := by
  have hopened : opened [t] = 0 := by rw [opened, List.countP_singleton, if_neg hopen]
  have hclosed : closed [t] = 0 := by rw [closed, List.countP_singleton, if_neg hclose]
  rw [balanced_cons, hopened, hclosed]
  exact and_iff_right (Nat.zero_le _)

/-- The group ends at the parenthesis in front of the rest. -/
def Closes (depth : Nat) (ts group rest : List Token) : Prop :=
  ∃ u, ts = group ++ u :: rest ∧ u.isSign .closeParen = true ∧ Balanced depth group

theorem closes_cons {d depth : Nat} {t : Token} {ts : List Token}
    (hd : ∀ us, Balanced depth (t :: us) ↔ Balanced d us) (hgoes : t.isSign .closeParen = true → depth ≠ 0)
    {group rest : List Token} :
    Closes depth (t :: ts) group rest ↔ ∃ us, group = t :: us ∧ Closes d ts us rest := by
  constructor
  · rintro ⟨u, hts, hu, hbalanced⟩
    cases group with
    | nil =>
      obtain ⟨rfl, -⟩ := List.cons.inj hts
      exact absurd (balanced_nil.1 hbalanced) (hgoes hu)
    | cons x us =>
      obtain rfl := (List.cons.inj hts).1
      exact ⟨us, rfl, u, (List.cons.inj hts).2, hu, (hd us).1 hbalanced⟩
  · rintro ⟨us, rfl, u, rfl, hu, hbalanced⟩
    exact ⟨u, rfl, hu, (hd us).2 hbalanced⟩

/-- A group is read up to the parenthesis that matches. -/
theorem closeGroup?_eq_some_iff {depth : Nat} {ts group rest : List Token} :
    closeGroup? depth ts = some (group, rest) ↔ Closes depth ts group rest := by
  induction ts generalizing depth group with
  | nil =>
    constructor
    · nofun
    · rintro ⟨u, hts, -⟩
      cases group <;> cases hts
  | cons t ts ih =>
    have hmore {d : Nat} (hd : ∀ us, Balanced depth (t :: us) ↔ Balanced d us)
        (hgoes : t.isSign .closeParen = true → depth ≠ 0) :
        (closeGroup? d ts).map (fun p => (t :: p.1, p.2)) = some (group, rest) ↔
          Closes depth (t :: ts) group rest := by
      rw [closes_cons hd hgoes, Option.map_eq_some_iff]
      constructor
      · rintro ⟨⟨us, r⟩, hus, heq⟩
        cases heq
        exact ⟨us, rfl, ih.1 hus⟩
      · rintro ⟨us, rfl, hus⟩
        exact ⟨(us, rest), ih.2 hus, rfl⟩
    rw [closeGroup?.eq_def]
    dsimp only
    by_cases hopen : t.isSign .openParen = true
    · rw [if_pos hopen]
      refine hmore (fun us => balanced_open hopen) fun h => ?_
      rw [Token.isSign, eq_of_beq hopen] at h
      cases eq_of_beq h
    · rw [if_neg hopen]
      by_cases hclose : t.isSign .closeParen = true
      · rw [if_pos hclose]
        cases depth with
        | zero =>
          constructor
          · intro h
            cases h
            exact ⟨t, rfl, hclose, balanced_nil.2 rfl⟩
          · rintro ⟨u, hts, -, hbalanced⟩
            cases group with
            | nil =>
              obtain ⟨-, rfl⟩ := List.cons.inj hts
              rfl
            | cons x us =>
              obtain ⟨rfl, -⟩ := List.cons.inj hts
              cases ((balanced_close hclose).1 hbalanced).1
        | succ d =>
          refine hmore (fun us => ?_) fun _ => Nat.succ_ne_zero d
          rw [balanced_close hclose]
          exact and_iff_right (Nat.le_add_left 1 d)
      · rw [if_neg hclose]
        exact hmore (fun us => balanced_other hopen hclose) fun h => absurd h hclose

/-! ## Selections -/

def Token.Selects (t : Token) : Prop := ∃ half, t.lexeme = .select half

theorem not_selects_of_inAlphabet {t : Token} (h : Expr.inAlphabet t = true) : ¬ t.Selects := by
  rintro ⟨half, ht⟩
  rw [Expr.inAlphabet, Token.kind, ht] at h
  cases half <;> cases h

theorem not_selects_of_isSign {t : Token} {s : Sign} (h : t.isSign s = true) : ¬ t.Selects := by
  rintro ⟨half, ht⟩
  rw [Token.isSign, ht] at h
  cases eq_of_beq h

/-- A selection of a byte, with a group of integers and symbols behind it that has a value. -/
structure Selection where
  token : Token
  half : Half
  opening : Token
  group : List Token
  closing : Token
  /-- The value of the group. -/
  value : Int
  selects : token.lexeme = .select half
  opens : opening.isSign .openParen = true
  closes : closing.isSign .closeParen = true
  group_ne_nil : group ≠ []
  group_inAlphabet : ∀ t ∈ group, Expr.inAlphabet t = true
  balanced : Balanced 0 group
  evaluates : Expr.evaluateSingle group = .ok value

namespace Selection

def body (s : Selection) : List Token := s.opening :: (s.group ++ [s.closing])

def tokens (s : Selection) : List Token := s.token :: s.body

def byte (s : Selection) : Byte := s.half.select s.value

def result (s : Selection) : Token := { s.token with lexeme := .int (s.byte.toNat : Int) }

theorem not_selects_of_mem_body {s : Selection} {t : Token} (h : t ∈ s.body) : ¬ t.Selects := by
  rcases List.mem_cons.1 h with rfl | h
  · exact not_selects_of_isSign s.opens
  · rcases List.mem_append.1 h with h | h
    · exact not_selects_of_inAlphabet (s.group_inAlphabet t h)
    · rw [List.mem_singleton.1 h]
      exact not_selects_of_isSign s.closes

theorem selectByte_eq (s : Selection) : selectByte s.token s.half s.group = .ok s.result := by
  unfold selectByte
  split
  · next hnil => exact absurd hnil s.group_ne_nil
  · rw [s.evaluates]
    rfl

end Selection

def Begins (ts : List Token) : Prop := ∃ s : Selection, s.tokens <+: ts

/-- Among the tokens of a selection only the first one selects, and it starts the selection. -/
theorem Selection.begins {s : Selection} {before after : List Token} {t : Token} (h : s.tokens = before ++ t :: after)
    (ht : t.Selects) (tail : List Token) : Begins (t :: (after ++ tail)) := by
  cases before with
  | nil => exact ⟨s, tail, by rw [h]; rfl⟩
  | cons u us =>
    have hmem : t ∈ s.body := by
      rw [(List.cons.inj h).2]
      simp
    exact absurd ht (not_selects_of_mem_body hmem)

/-- A selection, or a token that selects nothing. -/
inductive Part
  | token (t : Token) (h : ¬ t.Selects)
  | selection (s : Selection)

namespace Part

def tokens : Part → List Token
  | token t _ => [t]
  | selection s => s.tokens

def result : Part → Token
  | token t _ => t
  | selection s => s.result

end Part

theorem resolveSelects_selection (s : Selection) (ts : List Token) :
    resolveSelects (s.tokens ++ ts) = (resolveSelects ts).map (s.result :: ·) := by
  have hgroup : closeGroup? 0 (s.group ++ [s.closing] ++ ts) = some (s.group, ts) :=
    closeGroup?_eq_some_iff.2 ⟨s.closing, List.append_assoc _ _ _, s.closes, s.balanced⟩
  show resolveSelects (s.token :: s.opening :: (s.group ++ [s.closing] ++ ts)) = _
  rw [resolveSelects_opened s.selects s.opens hgroup, s.selectByte_eq]
  rfl

/-- Each selection is replaced by a byte, and the tokens between them stay. -/
theorem resolveSelects_parts (parts : List Part) (ts : List Token) :
    resolveSelects (parts.flatMap Part.tokens ++ ts) = (resolveSelects ts).map (parts.map Part.result ++ ·) := by
  induction parts with
  | nil =>
    show resolveSelects ts = _
    cases resolveSelects ts <;> rfl
  | cons part parts ih =>
    rw [List.flatMap_cons, List.append_assoc]
    cases part with
    | token t h =>
      show resolveSelects (t :: (parts.flatMap Part.tokens ++ ts)) = _
      rw [resolveSelects_cons (fun half ht => h ⟨half, ht⟩), ih]
      cases resolveSelects ts <;> rfl
    | selection s =>
      show resolveSelects (s.tokens ++ (parts.flatMap Part.tokens ++ ts)) = _
      rw [resolveSelects_selection, ih]
      cases resolveSelects ts <;> rfl

/-- Tokens are made of parts if every one among them that selects starts a selection. By induction on their number. What
stands behind them may only start with a token that selects, so that no group reaches into it. -/
theorem flatMap_parts_of_begins (tail : List Token) {ts : List Token} (htail : ∀ t ∈ tail.head?, t.Selects)
    (h : ∀ before t after, ts = before ++ t :: after → t.Selects → Begins (t :: (after ++ tail))) :
    ∃ parts : List Part, ts = parts.flatMap Part.tokens := by
  induction hn : ts.length using Nat.strongRecOn generalizing ts with
  | ind n ih =>
    cases ts with
    | nil => exact ⟨[], rfl⟩
    | cons t ts =>
      rw [List.length_cons] at hn
      by_cases ht : t.Selects
      · obtain ⟨s, rest, hrest⟩ := h [] t ts rfl ht
        obtain ⟨rfl, hbody⟩ := List.cons.inj hrest
        have hbody : s.body ++ rest = ts ++ tail := hbody
        obtain ⟨us, rfl⟩ : ∃ us, ts = s.body ++ us := by
          rcases List.append_eq_append_iff.1 hbody with ⟨us, hts, -⟩ | ⟨us, hsplit, htails⟩
          · exact ⟨us, hts⟩
          · cases us with
            | nil => exact ⟨[], by rw [hsplit, List.append_nil, List.append_nil]⟩
            | cons u us =>
              have hu : u.Selects := htail u (by rw [htails]; rfl)
              exact absurd hu (Selection.not_selects_of_mem_body (s := s) (by rw [hsplit]; simp))
        rw [List.length_append] at hn
        obtain ⟨parts, rfl⟩ := ih us.length (by omega) (fun before u after hus =>
          h (s.token :: s.body ++ before) u after (by rw [hus]; simp)) rfl
        exact ⟨.selection s :: parts, rfl⟩
      · obtain ⟨parts, rfl⟩ := ih ts.length (by omega) (fun before u after hts =>
          h (t :: before) u after (by rw [hts, List.cons_append])) rfl
        exact ⟨.token t ht :: parts, rfl⟩

/-! ## Selections without a group -/

/-- What may stand behind a token that selects and is no group with tokens in it. -/
inductive Malformed : List Token → Prop
  | unopened {ts : List Token} (h : ∀ t ∈ ts.head?, t.isSign .openParen = false) : Malformed ts
  | unclosed {u : Token} {ts : List Token} (hu : u.isSign .openParen = true)
      (h : ∀ group v rest, ts = group ++ v :: rest → v.isSign .closeParen = true → ¬ Balanced 0 group) :
      Malformed (u :: ts)
  | empty {u v : Token} {ts : List Token} (hu : u.isSign .openParen = true) (hv : v.isSign .closeParen = true) :
      Malformed (u :: v :: ts)

theorem resolveSelects_malformed {t : Token} {ts : List Token} (ht : t.Selects) (h : Malformed ts) :
    resolveSelects (t :: ts) = .error (.located t.loc (.resolve (.malformedByteSelect t.raw))) := by
  obtain ⟨half, ht⟩ := ht
  cases h with
  | unopened h => exact resolveSelects_unopened ht h
  | @unclosed u us hu h =>
    refine resolveSelects_unclosed ht hu ?_
    rw [Option.eq_none_iff_forall_ne_some]
    rintro ⟨group, rest⟩ hsome
    obtain ⟨v, hus, hv, hbalanced⟩ := closeGroup?_eq_some_iff.1 hsome
    exact h group v rest hus hv hbalanced
  | @empty u v us hu hv =>
    have hgroup : closeGroup? 0 (v :: us) = some ([], us) :=
      closeGroup?_eq_some_iff.2 ⟨v, rfl, hv, balanced_nil.2 rfl⟩
    rw [resolveSelects_opened ht hu hgroup]
    rfl

/-! ## The bytes of a word -/

theorem toNat_select (v : Int) :
    256 * ((Half.high.select v).toNat : Int) + ((Half.low.select v).toNat : Int) = v % 65536 := by
  have hword : ((BitVec.ofInt 16 v).toNat : Int) = v % 65536 := by
    rw [BitVec.toNat_ofInt]
    exact Int.toNat_of_nonneg (Int.emod_nonneg _ (by decide))
  unfold Half.select
  rw [toNat_highByte, toNat_lowByte]
  omega

theorem toNat_byte_le (b : Byte) : (b.toNat : Int) ≤ 255 := by
  have hlt := b.isLt
  omega

/-- What comes of a list of tokens. If none selects, it stays as it is. If each one that selects starts a selection, the
selections are replaced by their bytes and all other tokens stay; the two bytes of one value make up its low 16 bits. A
selection without a group is reported if it is the first one that has no value. -/
theorem resolveSelects_splits :
    (∀ ts : List Token, (∀ t ∈ ts, ¬ t.Selects) → resolveSelects ts = .ok ts) ∧
    (∀ ts : List Token, (∀ before t after, ts = before ++ t :: after → t.Selects → Begins (t :: after)) →
      ∃ parts : List Part, ts = parts.flatMap Part.tokens ∧ resolveSelects ts = .ok (parts.map Part.result)) ∧
    (∀ (low high : Selection) (v : Int), low.half = .low → high.half = .high → low.value = v → high.value = v →
      ∃ l h : Int, low.result.lexeme = .int l ∧ high.result.lexeme = .int h ∧
        0 ≤ l ∧ l ≤ 255 ∧ 0 ≤ h ∧ h ≤ 255 ∧ 256 * h + l ≡ v [ZMOD 65536]) ∧
    (∀ (before : List Token) (t : Token) (after : List Token), t.Selects → Malformed after →
      (∀ b u m, before = b ++ u :: m → u.Selects → Begins (u :: (m ++ t :: after))) →
      resolveSelects (before ++ t :: after) =
        .error (.located t.loc (.resolve (.malformedByteSelect t.raw)))) := by
  have hnil : resolveSelects [] = .ok [] := by rw [resolveSelects]
  have hwhole (parts : List Part) : resolveSelects (parts.flatMap Part.tokens) = .ok (parts.map Part.result) := by
    have hparts := resolveSelects_parts parts []
    rw [List.append_nil, hnil] at hparts
    rw [hparts, Except.map, List.append_nil]
  refine ⟨fun ts h => ?_, fun ts h => ?_, fun low high v hlow hhigh hl hh => ?_,
    fun before t after ht hafter h => ?_⟩
  · induction ts with
    | nil => exact hnil
    | cons t ts ih =>
      rw [List.forall_mem_cons] at h
      rw [resolveSelects_cons fun half ht => h.1 ⟨half, ht⟩, ih h.2]
      rfl
  · obtain ⟨parts, rfl⟩ : ∃ parts : List Part, ts = parts.flatMap Part.tokens := by
      refine flatMap_parts_of_begins [] (by simp) fun before t after hts ht => ?_
      rw [List.append_nil]
      exact h before t after hts ht
    exact ⟨parts, rfl, hwhole parts⟩
  · have hresult {s : Selection} {half : Half} (hhalf : s.half = half) (hvalue : s.value = v) :
        s.result.lexeme = .int (half.select v).toNat := by
      rw [← hhalf, ← hvalue]
      rfl
    refine ⟨(Half.low.select v).toNat, (Half.high.select v).toNat, hresult hlow hl, hresult hhigh hh,
      Int.natCast_nonneg _, toNat_byte_le _, Int.natCast_nonneg _, toNat_byte_le _, ?_⟩
    rw [toNat_select]
    exact Int.mod_modEq v 65536
  · have hhead : ∀ u ∈ (t :: after).head?, u.Selects := by
      intro u hu
      rwa [← Option.some.inj hu]
    obtain ⟨parts, rfl⟩ := flatMap_parts_of_begins (t :: after) hhead h
    rw [resolveSelects_parts, resolveSelects_malformed ht hafter]
    rfl

def nestedGroup : List Token :=
  [⟨.sign .openParen, "(", ⟨1, 5⟩⟩, ⟨.int 515, "515", ⟨1, 6⟩⟩, ⟨.sign .closeParen, ")", ⟨1, 9⟩⟩]

theorem balanced_nestedGroup : Balanced 0 nestedGroup := by
  have hgroup : closeGroup? 0 (nestedGroup ++ [⟨.sign .closeParen, ")", ⟨1, 10⟩⟩]) = some (nestedGroup, []) := rfl
  obtain ⟨u, -, -, hbalanced⟩ := closeGroup?_eq_some_iff.1 hgroup
  exact hbalanced

theorem evaluateSingle_nestedGroup : Expr.evaluateSingle nestedGroup = .ok 515 :=
  Expr.evaluateSingle_of_written (e := .lit ⟨515, rfl⟩) (@Expr.Written.group _ _ _ _ [_] rfl (.lit rfl) rfl)

def nestedSelection (half : Half) (raw : String) : Selection where
  token := ⟨.select half, raw, ⟨1, 1⟩⟩
  half := half
  opening := ⟨.sign .openParen, "(", ⟨1, 4⟩⟩
  group := nestedGroup
  closing := ⟨.sign .closeParen, ")", ⟨1, 10⟩⟩
  value := 515
  selects := rfl
  opens := rfl
  closes := rfl
  group_ne_nil := List.cons_ne_nil _ _
  group_inAlphabet := by decide
  balanced := balanced_nestedGroup
  evaluates := evaluateSingle_nestedGroup

theorem resolveSelects_splits_nested :
    resolveSelects nestedGroup = .ok nestedGroup ∧
    (∃ parts : List Part, (nestedSelection .low "lo8").tokens = parts.flatMap Part.tokens ∧
      resolveSelects (nestedSelection .low "lo8").tokens = .ok (parts.map Part.result)) ∧
    (∃ l h : Int, (nestedSelection .low "lo8").result.lexeme = .int l ∧
      (nestedSelection .high "hi8").result.lexeme = .int h ∧ 256 * h + l ≡ 515 [ZMOD 65536]) ∧
    resolveSelects ((nestedSelection .low "lo8").tokens ++ [⟨.select .high, "hi8", ⟨1, 11⟩⟩]) =
      .error (.located ⟨1, 11⟩ (.resolve (.malformedByteSelect "hi8"))) := by
  obtain ⟨hplain, hparts, hbytes, hmalformed⟩ := resolveSelects_splits
  refine ⟨hplain _ fun t ht => not_selects_of_inAlphabet ((nestedSelection .low "lo8").group_inAlphabet t ht),
    hparts _ fun before t after h ht => ?_, ?_, ?_⟩
  · rw [← List.append_nil after]
    exact Selection.begins h ht []
  · obtain ⟨l, h, hl, hh, -, -, -, -, hmod⟩ :=
      hbytes (nestedSelection .low "lo8") (nestedSelection .high "hi8") 515 rfl rfl rfl rfl
    exact ⟨l, h, hl, hh, hmod⟩
  · exact hmalformed (nestedSelection .low "lo8").tokens _ [] ⟨.high, rfl⟩ (.unopened nofun) fun b u m h hu =>
      Selection.begins h hu _

end Avr

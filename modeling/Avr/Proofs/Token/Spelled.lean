import Avr.Proofs.Layout.Reference
import Avr.Token.Lexer

/-!
# How pointers are spelled

* `Lexer.Cut` : a piece that a pattern of its class has cut; `scan_cut` : all pieces of a line are;
* `spelled_of_readLexeme` : a piece that reads as a pointer is spelled as one;
* `tokenize_spelled` : all tokens of a source are spelled;
* `resolveArgs_spelled` : and stay so when names, byte selections and expressions are replaced.
-/

namespace Avr

namespace Lexer

/-! ## Pieces -/

/-- A piece that a pattern of its class has cut from a text. -/
def Cut (kind : Kind) (text : List Char) : Prop :=
  ∃ pattern cs n, (some kind, pattern) ∈ patterns ∧ pattern cs = some n ∧ text = cs.take n

theorem mem_of_firstMatch? {cs : List Char} {kind? : Option Kind} {n : Nat} (h : firstMatch? cs = some (kind?, n)) :
    ∃ pattern, (kind?, pattern) ∈ patterns ∧ pattern cs = some n := by
  obtain ⟨⟨k, pattern⟩, hmem, hmap⟩ := List.exists_of_findSome?_eq_some h
  obtain ⟨m, hm, heq⟩ := Option.map_eq_some_iff.1 hmap
  cases heq
  exact ⟨pattern, hmem, hm⟩

theorem scan_cut {line col : Nat} {cs : List Char} {pieces : List Piece} (h : scan line col cs = .ok pieces) :
    ∀ p ∈ pieces, Cut p.kind p.text := by
  induction hn : cs.length using Nat.strongRecOn generalizing col cs pieces with
  | ind n ih =>
    rw [scan] at h
    split at h
    · cases h
      simp
    · next hne =>
      split at h
      · next kind? k hmatch =>
        obtain ⟨rest, hrest, h⟩ := bind_eq_ok.1 h
        have hlen : (cs.drop (k + 1)).length < n := by
          rw [List.length_drop]
          have : cs.length ≠ 0 := fun h0 => hne (by rw [List.length_eq_zero_iff.1 h0]; rfl)
          omega
        have hall := ih _ hlen hrest rfl
        split at h
        · next kind =>
          cases h
          obtain ⟨pattern, hmem, hpattern⟩ := mem_of_firstMatch? hmatch
          exact List.forall_mem_cons.2 ⟨⟨pattern, cs, k + 1, hmem, hpattern, rfl⟩, hall⟩
        · cases h
          exact hall
      · cases h

/-! ## Pointers -/

theorem isPointerLetter_cases {c : Char} (h : isPointerLetter c = true) : c = 'X' ∨ c = 'Y' ∨ c = 'Z' := by
  simp only [isPointerLetter, Bool.or_eq_true, beq_iff_eq] at h
  rwa [or_assoc] at h

theorem word_eq_some {n m : Nat} {cs : List Char} (h : word n cs = some m) : m = n := by
  unfold word at h
  split at h <;> cases h
  rfl

theorem cut_word {cs : List Char} (h : Cut .word cs) : ∃ c, cs = [c] ∧ isPointerLetter c = true := by
  obtain ⟨pattern, text, n, hmem, hpattern, rfl⟩ := h
  obtain rfl : pattern = pointer := by simpa [patterns] using hmem
  cases text with
  | nil => cases hpattern
  | cons c text =>
    rw [pointer] at hpattern
    split at hpattern
    · next hc =>
      obtain rfl := word_eq_some hpattern
      exact ⟨c, rfl, hc⟩
    · cases hpattern

theorem cut_wordPlus {cs : List Char} (h : Cut .wordPlus cs) : ∃ c, cs = [c, '+'] ∧ isPointerLetter c = true := by
  obtain ⟨pattern, text, n, hmem, hpattern, rfl⟩ := h
  obtain rfl : pattern = incremented := by simpa [patterns] using hmem
  unfold incremented at hpattern
  split at hpattern
  · next c _ =>
    split at hpattern
    · next hc =>
      cases hpattern
      exact ⟨c, rfl, hc⟩
    · cases hpattern
  · cases hpattern

theorem cut_minusWord {cs : List Char} (h : Cut .minusWord cs) : ∃ c, cs = ['-', c] ∧ isPointerLetter c = true := by
  obtain ⟨pattern, text, n, hmem, hpattern, rfl⟩ := h
  obtain rfl : pattern = decremented := by simpa [patterns] using hmem
  unfold decremented at hpattern
  split at hpattern
  · next c _ =>
    split at hpattern
    · next hc =>
      obtain rfl := word_eq_some hpattern
      exact ⟨c, rfl, hc⟩
    · cases hpattern
  · cases hpattern

theorem cut_wordPlusQ {cs : List Char} (h : Cut .wordPlusQ cs) :
    ∃ c d ds, cs = c :: '+' :: d :: ds ∧ (c = 'Y' ∨ c = 'Z') := by
  obtain ⟨pattern, text, n, hmem, hpattern, rfl⟩ := h
  obtain rfl : pattern = displaced := by simpa [patterns] using hmem
  unfold displaced at hpattern
  split at hpattern
  · next c text =>
    dsimp only at hpattern
    split at hpattern
    · next hc =>
      obtain rfl := word_eq_some hpattern
      simp only [Bool.and_eq_true, Bool.or_eq_true, beq_iff_eq] at hc
      cases text with
      | nil => simp [run] at hc
      | cons d text =>
        obtain ⟨k, hk⟩ : ∃ k, run Text.isDecimalDigit (d :: text) = k + 1 :=
          ⟨run Text.isDecimalDigit (d :: text) - 1, by omega⟩
        rw [hk]
        exact ⟨c, d, text.take k, rfl, hc.1⟩
    · cases hpattern
  · cases hpattern

/-- What a piece of a pointer reads as, and that it is spelled so. -/
theorem pointer_of_readPointer {kind : Kind} {cs : List Char} {lexeme : Lexeme}
    (hkind : kind = .word ∨ kind = .wordPlus ∨ kind = .minusWord ∨ kind = .wordPlusQ) (hcut : Cut kind cs)
    (h : readPointer cs = .ok lexeme) :
    ∃ p mode, lexeme = .ptr p mode ∧ ∀ loc, (⟨lexeme, String.ofList cs, loc⟩ : Token).Spelled := by
  rcases hkind with rfl | rfl | rfl | rfl
  · obtain ⟨c, rfl, hc⟩ := cut_word hcut
    rcases isPointerLetter_cases hc with rfl | rfl | rfl <;> cases h <;> exact ⟨_, _, rfl, fun _ => rfl⟩
  · obtain ⟨c, rfl, hc⟩ := cut_wordPlus hcut
    rcases isPointerLetter_cases hc with rfl | rfl | rfl <;> cases h <;> exact ⟨_, _, rfl, fun _ => trivial⟩
  · obtain ⟨c, rfl, hc⟩ := cut_minusWord hcut
    rcases isPointerLetter_cases hc with rfl | rfl | rfl <;> cases h <;> exact ⟨_, _, rfl, fun _ => trivial⟩
  · obtain ⟨c, d, ds, rfl, hc⟩ := cut_wordPlusQ hcut
    obtain ⟨p, hp, rfl⟩ : ∃ p : Pointer, p ≠ .X ∧ p.letter = c := by
      rcases hc with rfl | rfl
      · exact ⟨.Y, by decide, rfl⟩
      · exact ⟨.Z, by decide, rfl⟩
    rw [readPointer_displaced hp] at h
    split at h
    · cases h
      exact ⟨p, _, rfl, fun _ => hp⟩
    · cases h

theorem spelled_of_readPointer {kind : Kind} {cs : List Char} {lexeme : Lexeme} {loc : Loc}
    (hkind : kind = .word ∨ kind = .wordPlus ∨ kind = .minusWord ∨ kind = .wordPlusQ) (hcut : Cut kind cs)
    (h : readPointer cs = .ok lexeme) : (⟨lexeme, String.ofList cs, loc⟩ : Token).Spelled := by
  obtain ⟨-, -, -, hspelled⟩ := pointer_of_readPointer hkind hcut h
  exact hspelled loc

theorem spelled_of_readLexeme {kind : Kind} {cs : List Char} {lexeme : Lexeme} {loc : Loc}
    (hcut : kind ≠ .ref → Cut kind cs) (h : readLexeme kind cs = .ok lexeme) :
    (⟨lexeme, String.ofList cs, loc⟩ : Token).Spelled := by
  unfold readLexeme at h
  dsimp only at h
  cases kind with
  | word => exact spelled_of_readPointer (.inl rfl) (hcut nofun) h
  | wordPlus => exact spelled_of_readPointer (.inr (.inl rfl)) (hcut nofun) h
  | minusWord => exact spelled_of_readPointer (.inr (.inr (.inl rfl))) (hcut nofun) h
  | wordPlusQ => exact spelled_of_readPointer (.inr (.inr (.inr rfl))) (hcut nofun) h
  | reg | int | dir | math =>
    dsimp only at h
    repeat' split at h
    all_goals cases h
    all_goals trivial
  | _ =>
    cases h
    trivial

/-! ## Tokens -/

theorem spelled_of_token {line : Nat} {p : Piece} {t : Token} (hcut : p.kind ≠ .ref → Cut p.kind p.text)
    (h : p.token line = .ok t) : t.Spelled := by
  unfold Piece.token at h
  dsimp only at h
  split at h
  · next lexeme hlexeme =>
    cases h
    exact spelled_of_readLexeme hcut hlexeme
  · cases h

theorem addPiece_spelled {line : Nat} {done ts : List Token} {p : Piece} (hcut : p.kind ≠ .ref → Cut p.kind p.text)
    (hdone : ∀ t ∈ done, t.Spelled) (h : addPiece line done p = .ok ts) : ∀ t ∈ ts, t.Spelled := by
  have hpush : ∀ {ts : List Token}, (p.token line).map (· :: done) = .ok ts → ∀ t ∈ ts, t.Spelled := by
    intro ts h
    obtain ⟨t, ht, rfl⟩ := map_eq_ok.1 h
    exact List.forall_mem_cons.2 ⟨spelled_of_token hcut ht, hdone⟩
  unfold addPiece at h
  split at h
  · split at h
    · cases h
      exact List.forall_mem_cons.2 ⟨trivial, fun t ht => hdone t (List.mem_cons_of_mem _ ht)⟩
    · exact hpush h
  · exact hpush h

theorem joinPieces_spelled {line : Nat} {pieces : List Piece} {ts : List Token}
    (hpieces : ∀ p ∈ pieces, Cut p.kind p.text) (h : joinPieces line pieces = .ok ts) : ∀ t ∈ ts, t.Spelled := by
  have hgo : ∀ (ps : List Piece) (done ts : List Token), (∀ p ∈ ps, p.kind ≠ .ref → Cut p.kind p.text) →
      (∀ t ∈ done, t.Spelled) → ps.foldlM (addPiece line) done = .ok ts → ∀ t ∈ ts, t.Spelled := by
    intro ps
    induction ps with
    | nil =>
      intro done ts _ hdone h
      cases h
      exact hdone
    | cons p ps ih =>
      intro done ts hps hdone h
      obtain ⟨mid, hmid, h⟩ := foldlM_cons_eq_ok.1 h
      rw [List.forall_mem_cons] at hps
      exact ih mid ts hps.2 (addPiece_spelled hps.1 hdone hmid) h
  obtain ⟨done, hdone, h⟩ := bind_eq_ok.1 h
  cases h
  intro t ht
  refine hgo _ [] done ?_ (by simp) hdone t (List.mem_reverse.1 ht)
  intro p hp hkind
  obtain ⟨⟨q, place⟩, hq, rfl⟩ := List.mem_map.1 hp
  have hqp := hpieces q (List.fst_mem_of_mem_zipIdx hq)
  dsimp only at hkind ⊢
  unfold Piece.inContext at hkind ⊢
  split at hkind
  · exact absurd rfl hkind
  · next hcond =>
    rw [if_neg hcond]
    exact hqp

end Lexer

/-- All tokens of a source are spelled as pointers are. -/
theorem tokenize_spelled {source : String} {lines : List Line} (h : tokenize source = .ok lines) :
    ∀ line ∈ lines, ∀ t ∈ line.tokens, t.Spelled := by
  obtain ⟨all, hall, h⟩ := bind_eq_ok.1 h
  cases h
  rw [mapM_eq_ok_iff, List.forall₂_iff_get] at hall
  intro line hline
  obtain ⟨k, hk, rfl⟩ := List.mem_iff_getElem.1 (List.mem_filter.1 hline).1
  have hget := hall.2 k (by rw [hall.1]; exact hk) hk
  obtain ⟨pieces, hpieces, hget⟩ := bind_eq_ok.1 hget
  obtain ⟨tokens, htokens, hget⟩ := bind_eq_ok.1 hget
  have hline' : all[k] = _ := (pure_eq_ok.1 hget).symm
  rw [hline']
  exact Lexer.joinPieces_spelled (Lexer.scan_cut hpieces) htokens

/-! ## Replacing names, byte selections and expressions -/

theorem resolveRef_spelled {s : Symbols} {r : Reference} {t u : Token} (ht : t.Spelled)
    (h : resolveRef s r t = .ok u) : u.Spelled := by
  unfold resolveRef at h
  split at h
  · next name _ =>
    split at h
    · next lexeme hlexeme =>
      cases h
      unfold Symbols.meaning? at hlexeme
      split at hlexeme
      · cases hlexeme
        trivial
      · cases hlexeme
        trivial
      · cases hlexeme
        trivial
      · obtain ⟨f, -, rfl⟩ := Option.map_eq_some_iff.1 hlexeme
        trivial
    · cases h
  · cases h
    exact ht

theorem resolveRefs_spelled {s : Symbols} {r : Reference} {ts us : List Token} (hts : ∀ t ∈ ts, t.Spelled)
    (h : resolveRefs s r ts = .ok us) : ∀ t ∈ us, t.Spelled := by
  rw [resolveRefs, mapM_eq_ok_iff] at h
  induction h with
  | nil => simp
  | cons hhead _ ih =>
    rw [List.forall_mem_cons] at hts
    exact List.forall_mem_cons.2 ⟨resolveRef_spelled hts.1 hhead, ih hts.2⟩

theorem spelled_of_int {t : Token} {v : Int} (h : t.lexeme = .int v) : t.Spelled := by
  unfold Token.Spelled
  rw [h]
  trivial

theorem selectByte_int {t u : Token} {half : Half} {inner : List Token} (h : selectByte t half inner = .ok u) :
    ∃ v, u.lexeme = .int v := by
  unfold selectByte at h
  split at h
  · cases h
  · split at h
    · cases h
      exact ⟨_, rfl⟩
    · cases h

/-- A group ends at one token, and the rest is behind it. -/
theorem closeGroup?_eq_append {depth : Nat} {ts inner rest : List Token}
    (h : closeGroup? depth ts = some (inner, rest)) : ∃ t, ts = inner ++ t :: rest := by
  induction ts generalizing depth inner with
  | nil => cases h
  | cons t ts ih =>
    have step : ∀ {d : Nat}, (closeGroup? d ts).map (fun p => (t :: p.1, p.2)) = some (inner, rest) →
        ∃ u, t :: ts = inner ++ u :: rest := by
      intro d hd
      obtain ⟨⟨i, r⟩, hr, he⟩ := Option.map_eq_some_iff.1 hd
      cases he
      obtain ⟨u, rfl⟩ := ih hr
      exact ⟨u, rfl⟩
    rw [closeGroup?.eq_def] at h
    dsimp only at h
    split at h
    · exact step h
    · split at h
      · split at h
        · cases h
          exact ⟨t, rfl⟩
        · exact step h
      · exact step h

/-- Behind the group that a selection takes there are only tokens of the list. -/
theorem mem_of_closeGroup? {depth : Nat} {ts inner rest : List Token} (h : closeGroup? depth ts = some (inner, rest)) :
    ∀ t ∈ rest, t ∈ ts := by
  obtain ⟨u, rfl⟩ := closeGroup?_eq_append h
  intro t ht
  simp [ht]

theorem resolveSelects_spelled {ts us : List Token} (hts : ∀ t ∈ ts, t.Spelled) (h : resolveSelects ts = .ok us) :
    ∀ t ∈ us, t.Spelled := by
  induction hn : ts.length using Nat.strongRecOn generalizing ts us with
  | ind n ih =>
    cases ts with
    | nil =>
      rw [resolveSelects] at h
      cases h
      simp
    | cons t ts =>
      rw [List.length_cons] at hn
      rw [List.forall_mem_cons] at hts
      by_cases ht : ∃ half, t.lexeme = .select half
      · obtain ⟨half, ht⟩ := ht
        obtain ⟨u, us, inner, rest, byte, r, rfl, -, hgroup, hbyte, hrest, rfl⟩ := resolveSelects_select ht h
        obtain ⟨v, hv⟩ := selectByte_int hbyte
        have hlen := length_closeGroup? hgroup
        rw [List.length_cons] at hn
        refine List.forall_mem_cons.2 ⟨spelled_of_int hv, ih rest.length (by omega) (fun w hw => ?_) hrest rfl⟩
        exact hts.2 w (List.mem_cons_of_mem _ (mem_of_closeGroup? hgroup w hw))
      · rw [resolveSelects_cons fun half hhalf => ht ⟨half, hhalf⟩] at h
        obtain ⟨r, hr, rfl⟩ := map_eq_ok.1 h
        exact List.forall_mem_cons.2 ⟨hts.1, ih ts.length (by omega) hts.2 hr rfl⟩

theorem evaluate_spelled {ts us : List Token} (hts : ∀ t ∈ ts, t.Spelled) (h : Expr.evaluate ts = .ok us) :
    ∀ t ∈ us, t.Spelled := by
  induction hn : ts.length using Nat.strongRecOn generalizing ts us with
  | ind n ih =>
    cases ts with
    | nil =>
      rw [Expr.evaluate] at h
      cases h
      simp
    | cons t ts =>
      rw [List.length_cons] at hn
      rw [List.forall_mem_cons] at hts
      cases ht : Expr.inAlphabet t with
      | false =>
        rw [evaluate_cons_other ht] at h
        obtain ⟨r, hr, rfl⟩ := map_eq_ok.1 h
        exact List.forall_mem_cons.2 ⟨hts.1, ih ts.length (by omega) hts.2 hr rfl⟩
      | true =>
        obtain ⟨v, r, hv, hr, rfl⟩ := evaluate_cons_run ht h
        have hsub := List.dropWhile_sublist (p := Expr.inAlphabet) (l := ts)
        have hlen := hsub.length_le
        refine List.forall_mem_cons.2 ⟨?_, ih _ (by omega) (fun u hu => hts.2 u (hsub.subset hu)) hr rfl⟩
        unfold Expr.collapse at hv
        split at hv
        · cases hv
          exact hts.1
        · split at hv
          · cases hv
            trivial
          · cases hv

theorem resolveArgs_spelled {s : Symbols} {r : Reference} {ts us : List Token} (hts : ∀ t ∈ ts, t.Spelled)
    (h : resolveArgs s r ts = .ok us) : ∀ t ∈ us, t.Spelled := by
  obtain ⟨ts₁, h₁, h⟩ := bind_eq_ok.1 h
  obtain ⟨ts₂, h₂, h⟩ := bind_eq_ok.1 h
  exact evaluate_spelled (resolveSelects_spelled (resolveRefs_spelled hts h₁) h₂) h

end Avr

import Avr.Proofs.Token.Names

/-!
# A load of the low byte of a name

* `mention` : the line `LDI R16, lo8(name)`; `loadTokens` : its tokens up to and including the open parenthesis;
* `scan_mention`, `tokenizeLine_mention` : what follows these tokens is that of the name and the parenthesis behind it;
* `tokenizeLine_word` : behind a name without dots, which starts with no reserved word, the parenthesis is closed;
* `tokenizeLine_dotted` : behind a name with a dot it never is.
-/

namespace Avr

/-- A load of the low byte of what a name stands for. -/
def mention (name : String) : String := "LDI R16, lo8(" ++ name ++ ")"

namespace Lexer

open Text

/-! ## Cutting -/

/-- An open parenthesis is a symbol of its own, whatever stands behind it. -/
theorem firstMatch?_openParen (cs : List Char) : firstMatch? ('(' :: cs) = some (some .math, 1) := by
  have hsign : sign ('(' :: cs) = some 1 := by
    have hpair : ∀ d : Char, isSignText ['(', d] = false := by
      intro d
      have hall : ∀ g : Sign, g.text.toList.head? = some '(' → g.text.toList = ['('] := by
        intro g
        rcases g with o | _ | _ | _ | _
        · cases o <;> decide +kernel
        all_goals decide +kernel
      rw [isSignText, Option.isSome_eq_false_iff, Option.isNone_iff_eq_none, Sign.ofText?, List.find?_eq_none]
      intro g _ hg
      have htext : g.text.toList = ['(', d] := by rw [eq_of_beq hg, String.toList_ofList]
      rw [hall g (by rw [htext]; rfl)] at htext
      cases htext
    cases cs with
    | nil => decide +kernel
    | cons d cs =>
      rw [sign, hpair, if_neg Bool.false_ne_true]
      exact if_pos (by decide +kernel)
  refine firstMatch?_eq (k := 17) rfl ?_ hsign
  simp only [patterns, List.take_succ_cons, List.take_zero, List.forall_mem_cons]
  have hdisplaced : displaced ('(' :: cs) = none := displaced_eq_none (by decide) (by decide)
  have hincremented : incremented ('(' :: cs) = none := incremented_eq_none rfl
  exact ⟨rfl, rfl, rfl, rfl, rfl, rfl, rfl, rfl, rfl, rfl, rfl, rfl, hdisplaced, hincremented, rfl, rfl, rfl, by simp⟩

def loadPieces : List Piece :=
  [⟨.inst, ['L', 'D', 'I'], 1⟩, ⟨.reg, ['R', '1', '6'], 5⟩, ⟨.comma, [','], 8⟩, ⟨.lo8, ['l', 'o', '8'], 10⟩,
    ⟨.math, ['('], 13⟩]

theorem toList_mention (name : String) :
    (mention name).toList = ['L', 'D', 'I'] ++ (' ' :: (['R', '1', '6'] ++ (',' :: ' ' :: (['l', 'o', '8'] ++
      (['('] ++ (name.toList ++ [')'])))))) := by
  rw [mention, String.toList_append, String.toList_append, List.append_assoc]
  rfl

/-- Behind the open parenthesis the rest of the line is cut as it stands. -/
theorem scan_mention (line : Nat) (name : String) :
    scan line 1 (mention name).toList = (scan line 14 (name.toList ++ [')'])).map (loadPieces ++ ·) := by
  have hname : IsPiece .inst ['L', 'D', 'I'] := isPiece_letters (List.all_eq_true.1 rfl) (by decide) (by decide)
  have hregister : IsPiece .reg ['R', '1', '6'] := isPiece_register (List.all_eq_true.1 rfl)
  have hselect (cs : List Char) (col : Nat) : scan line col (['l', 'o', '8'] ++ (['('] ++ cs)) =
      (scan line (col + byteLength ['l', 'o', '8']) (['('] ++ cs)).map (⟨.lo8, ['l', 'o', '8'], col⟩ :: ·) :=
    scan_of_firstMatch? (t := ['l', 'o', '8']) (List.cons_ne_nil _ _) rfl line col
  have hopen (cs : List Char) (col : Nat) : scan line col (['('] ++ cs) =
      (scan line (col + byteLength ['(']) cs).map (⟨.math, ['('], col⟩ :: ·) :=
    scan_of_firstMatch? (t := ['(']) (List.cons_ne_nil _ _) (firstMatch?_openParen cs) line col
  have hcol : 1 + byteLength ['L', 'D', 'I'] + 1 + byteLength ['R', '1', '6'] + 1 + 1 + byteLength ['l', 'o', '8'] +
      byteLength ['('] = 14 := rfl
  rw [toList_mention, scan_piece hname (.inr ⟨' ', _, rfl, .inl rfl⟩), scan_space,
    scan_piece hregister (.inr ⟨',', _, rfl, .inr rfl⟩), scan_comma, scan_space, hselect, hopen, hcol]
  cases scan line 14 (name.toList ++ [')']) <;> rfl

/-! ## Joining -/

def loadTokens (line : Nat) : List Token :=
  [⟨.inst "LDI", "LDI", ⟨line, 1⟩⟩, ⟨.reg 16, "R16", ⟨line, 5⟩⟩, ⟨.comma, ",", ⟨line, 8⟩⟩,
    ⟨.select .low, "lo8", ⟨line, 10⟩⟩, ⟨.sign .openParen, "(", ⟨line, 13⟩⟩]

theorem settled_load (n : Nat) : Settled (loadTokens n).reverse := fun _ _ _ _ h => nomatch h

theorem inContext_load (pieces : List Piece) :
    (loadPieces ++ pieces).zipIdx.map (fun (p, place) => p.inContext false place) =
      loadPieces ++ pieces.map Piece.later := by
  rw [List.zipIdx_append, List.map_append, inContext_later (k := 0 + loadPieces.length) (by decide)]
  rfl

/-- The line is cut and joined behind the open parenthesis as it is in front of it. -/
theorem tokenizeLine_mention {n : Nat} {name : String} {line : Line} :
    tokenizeLine n (mention name).toList = .ok line ↔ ∃ pieces done, scan n 14 (name.toList ++ [')']) = .ok pieces ∧
      (pieces.map Piece.later).foldlM (addPiece n) (loadTokens n).reverse = .ok done ∧ line = ⟨n, done.reverse⟩ := by
  have hfront : loadPieces.foldlM (addPiece n) [] = .ok (loadTokens n).reverse := rfl
  have hjoin (pieces : List Piece) : joinPieces n (loadPieces ++ pieces) =
      ((pieces.map Piece.later).foldlM (addPiece n) (loadTokens n).reverse).map List.reverse := by
    have hleading : (loadPieces ++ pieces).head?.any (·.kind == .label) = false := rfl
    unfold joinPieces
    dsimp only
    rw [hleading, inContext_load, List.foldlM_append, hfront]
    dsimp only [bind, Except.bind]
    cases (pieces.map Piece.later).foldlM (addPiece n) (loadTokens n).reverse <;> rfl
  rw [tokenizeLine, bind_eq_ok, scan_mention]
  constructor
  · rintro ⟨all, hall, h⟩
    obtain ⟨pieces, hpieces, rfl⟩ := map_eq_ok.1 hall
    obtain ⟨tokens, htokens, h⟩ := bind_eq_ok.1 h
    rw [hjoin] at htokens
    obtain ⟨done, hdone, rfl⟩ := map_eq_ok.1 htokens
    exact ⟨pieces, done, hpieces, hdone, (pure_eq_ok.1 h).symm⟩
  · rintro ⟨pieces, done, hpieces, hdone, rfl⟩
    refine ⟨loadPieces ++ pieces, map_eq_ok.2 ⟨pieces, hpieces, rfl⟩, bind_eq_ok.2 ⟨done.reverse, ?_, rfl⟩⟩
    rw [hjoin, hdone]
    rfl

/-- Behind tokens the last of which is no name, pieces add tokens with a property that theirs and all names have. By
induction on the pieces: a piece is added behind the others, or it goes on the name that one of them has added. -/
theorem foldlM_addPiece {n : Nat} {base : List Token} (hbase : Settled base) {P : Token → Prop}
    (href : ∀ name raw loc, P ⟨.ref name, raw, loc⟩) {pieces : List Piece}
    (hpieces : ∀ p ∈ pieces, ∀ t, p.token n = .ok t → P t) {more done : List Token} (hmore : ∀ t ∈ more, P t)
    (h : pieces.foldlM (addPiece n) (more ++ base) = .ok done) : ∃ more', done = more' ++ base ∧ ∀ t ∈ more', P t := by
  induction pieces generalizing more with
  | nil =>
    cases h
    exact ⟨more, rfl, hmore⟩
  | cons p pieces ih =>
    rw [List.forall_mem_cons] at hpieces
    obtain ⟨mid, hmid, h⟩ := foldlM_cons_eq_ok.1 h
    have hpush : (p.token n).map (· :: (more ++ base)) = .ok mid → ∃ more', mid = more' ++ base ∧ ∀ t ∈ more', P t := by
      intro hpush
      obtain ⟨t, ht, rfl⟩ := map_eq_ok.1 hpush
      exact ⟨t :: more, rfl, List.forall_mem_cons.2 ⟨hpieces.1 t ht, hmore⟩⟩
    have hstep : ∃ more', mid = more' ++ base ∧ ∀ t ∈ more', P t := by
      cases more with
      | nil =>
        rw [List.nil_append, addPiece_of_settled hbase] at hmid
        exact hpush hmid
      | cons u more =>
        rw [List.forall_mem_cons] at hmore
        unfold addPiece at hmid
        split at hmid
        · next heq =>
          split at hmid
          · cases hmid
            obtain ⟨rfl, rfl⟩ := List.cons.inj heq
            exact ⟨_ :: more, rfl, List.forall_mem_cons.2 ⟨href _ _ _, hmore.2⟩⟩
          · exact hpush hmid
        · exact hpush hmid
    obtain ⟨more', rfl, hmore'⟩ := hstep
    exact ih hpieces.2 hmore' h

/-- The line starts with the tokens of the load, whatever the name is. -/
theorem tokenizeLine_load {name : String} {n : Nat} {line : Line}
    (h : tokenizeLine n (mention name).toList = .ok line) : ∃ more, line = ⟨n, loadTokens n ++ more⟩ := by
  obtain ⟨pieces, done, -, hdone, rfl⟩ := tokenizeLine_mention.1 h
  have hnone : ∀ t ∈ ([] : List Token), True := fun _ _ => trivial
  obtain ⟨more, rfl, -⟩ := foldlM_addPiece (settled_load n) (fun _ _ _ => trivial) (fun _ _ _ _ => trivial) hnone hdone
  exact ⟨more.reverse, by rw [List.reverse_append, List.reverse_reverse]⟩

/-! ## Names without dots -/

def closedName (n : Nat) (name : String) (col : Nat) : List Token :=
  [⟨.ref name, name, ⟨n, 14⟩⟩, ⟨.sign .closeParen, ")", ⟨n, col⟩⟩]

/-- A name without dots that starts with no reserved word is one token, and the parenthesis behind it another one. -/
theorem tokenizeLine_word {name : String} (hname : IsName name.toList) (hdot : '.' ∉ name.toList)
    (hfree : ¬ StartsReserved name.toList) (n : Nat) :
    ∃ col, tokenizeLine n (mention name).toList = .ok ⟨n, loadTokens n ++ closedName n name col⟩ := by
  obtain ⟨c, cs, hchars, hc, hcs⟩ := hname
  rw [hchars] at hdot hfree
  have hword : ∀ d ∈ cs, isWordChar d = true := by
    intro d hd
    refine (hcs d hd).resolve_right ?_
    rintro rfl
    exact hdot (List.mem_cons_of_mem _ hd)
  obtain ⟨kind, hkind, hmatch⟩ := firstMatch?_word hc hword hfree
  have hparen (col : Nat) : scan n col [')'] = .ok [⟨.math, [')'], col⟩] := by
    have hmatch : firstMatch? ([')'] ++ []) = some (some .math, 1) := by decide +kernel
    have hscan := scan_of_firstMatch? (t := [')']) (List.cons_ne_nil _ _) hmatch n col
    rwa [scan_nil] at hscan
  have hscan : scan n 14 (c :: cs ++ [')']) =
      (scan n (14 + byteLength (c :: cs)) [')']).map (⟨kind, c :: cs, 14⟩ :: ·) :=
    scan_of_firstMatch? (List.cons_ne_nil _ _) hmatch n 14
  rw [hparen, ← hchars] at hscan
  have hlater : (⟨kind, name.toList, 14⟩ : Piece).later = ⟨.ref, name.toList, 14⟩ := by
    rcases hkind with rfl | rfl <;> rfl
  have hfirst : addPiece n (loadTokens n).reverse ⟨.ref, name.toList, 14⟩ =
      .ok (⟨.ref name, name, ⟨n, 14⟩⟩ :: (loadTokens n).reverse) := by
    rw [addPiece_of_settled (settled_load n), Piece.token]
    dsimp only [readLexeme]
    rw [String.ofList_toList]
    rfl
  have hsecond (col : Nat) : addPiece n (⟨.ref name, name, ⟨n, 14⟩⟩ :: (loadTokens n).reverse) ⟨.math, [')'], col⟩ =
      .ok (⟨.sign .closeParen, ")", ⟨n, col⟩⟩ :: ⟨.ref name, name, ⟨n, 14⟩⟩ :: (loadTokens n).reverse) := by
    have htoken : (⟨.math, [')'], col⟩ : Piece).token n = .ok ⟨.sign .closeParen, ")", ⟨n, col⟩⟩ := rfl
    unfold addPiece
    dsimp only
    rw [if_neg (fun h => Bool.false_ne_true h.2), htoken]
    rfl
  refine ⟨14 + byteLength name.toList, tokenizeLine_mention.2 ⟨_,
    (loadTokens n ++ closedName n name (14 + byteLength name.toList)).reverse, hscan, ?_, by rw [List.reverse_reverse]⟩⟩
  rw [List.map_cons, hlater]
  exact foldlM_cons_eq_ok.2 ⟨_, hfirst, foldlM_cons_eq_ok.2 ⟨_, hsecond _, rfl⟩⟩

/-! ## Names with dots -/

theorem token_ne_closeParen {n : Nat} {p : Piece} {t : Token} (hcut : p.kind ≠ .ref → Cut p.kind p.text)
    (hp : p.text ≠ [')']) (h : p.token n = .ok t) : t.lexeme ≠ .sign .closeParen := by
  intro hclose
  have hpointer {kind : Kind} (hkind : kind = .word ∨ kind = .wordPlus ∨ kind = .minusWord ∨ kind = .wordPlusQ)
      (heq : p.kind = kind) : readPointer p.text ≠ .ok (.sign .closeParen) := by
    intro hread
    have href : p.kind ≠ .ref := by
      rw [heq]
      rcases hkind with rfl | rfl | rfl | rfl <;> exact nofun
    obtain ⟨_, _, hsign, -⟩ := pointer_of_readPointer hkind (heq ▸ hcut href) hread
    cases hsign
  have hread : readLexeme p.kind p.text = .ok (.sign .closeParen) := by
    unfold Piece.token at h
    dsimp only at h
    split at h
    · next lexeme hlexeme =>
      cases h
      exact hclose ▸ hlexeme
    · cases h
  unfold readLexeme at hread
  dsimp only at hread
  cases hkind : p.kind with
  | math =>
    rw [hkind] at hread
    dsimp only at hread
    split at hread
    · next g hg =>
      cases hread
      have htext : Sign.closeParen.text = String.ofList p.text :=
        eq_of_beq (List.find?_some (p := fun g : Sign => g.text == String.ofList p.text) hg)
      exact hp ((String.toList_ofList (l := p.text)).symm.trans (congrArg String.toList htext.symm))
    · cases hread
  | word | wordPlus | minusWord | wordPlusQ =>
    rw [hkind] at hread
    exact hpointer (by simp) hkind hread
  | reg | int | dir =>
    rw [hkind] at hread
    dsimp only at hread
    repeat' split at hread
    all_goals cases hread
  | _ =>
    rw [hkind] at hread
    cases hread

/-- Behind a name with a dot the parenthesis is not closed. -/
theorem tokenizeLine_dotted {name : String} (hname : IsName name.toList) (hdot : '.' ∈ name.toList) {n : Nat}
    {line : Line} (h : tokenizeLine n (mention name).toList = .ok line) :
    ∃ more, line.tokens = loadTokens n ++ more ∧ ∀ t ∈ more, t.lexeme ≠ .sign .closeParen := by
  obtain ⟨pieces, done, hpieces, hdone, rfl⟩ := tokenizeLine_mention.1 h
  obtain ⟨u, q, hsplit, hu, hq⟩ := exists_last_dot hname hdot
  rw [hsplit, List.append_assoc, List.cons_append] at hpieces
  have hopen := scan_dotted hu hq hpieces
  have hlater : ∀ p ∈ pieces.map Piece.later, (p.kind ≠ .ref → Cut p.kind p.text) ∧ p.text ≠ [')'] := by
    intro p hp
    obtain ⟨q, hq, rfl⟩ := List.mem_map.1 hp
    unfold Piece.later
    split
    · exact ⟨absurd rfl, hopen q hq⟩
    · exact ⟨fun _ => scan_cut hpieces q hq, hopen q hq⟩
  have hnone : ∀ t ∈ ([] : List Token), t.lexeme ≠ .sign .closeParen := fun _ ht => nomatch ht
  obtain ⟨more, rfl, hmore⟩ := foldlM_addPiece (settled_load n) (fun _ _ _ => nofun)
    (fun p hp t ht => token_ne_closeParen (hlater p hp).1 (hlater p hp).2 ht) hnone hdone
  refine ⟨more.reverse, by rw [List.reverse_append, List.reverse_reverse], fun t ht => hmore t (List.mem_reverse.1 ht)⟩

end Lexer

end Avr

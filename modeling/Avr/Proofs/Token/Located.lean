import Avr.Proofs.Text.Encoded
import Avr.Proofs.Token.Joined
import Avr.Proofs.Token.Spelled

/-!
# Where tokens stand

* `Stretch` : a text at a column of a line; `Covers` : stretches of a line, with nothing between them but white space
  and a comment up to its end;
* `Covers.glue` : two stretches that touch may be one;
* `scan_covers` : the pieces of a line cover it; `foldlM_addPiece_covers` : and so do the tokens made of them;
* `Covers.located`, `Covers.ordered`, `Covers.outside`, `Covers.eq_nil_iff` : what covering a line means;
* `tokenize_located` : the tokens of a source stand where they say, and nothing is lost but white space and comments.
-/

namespace Avr

open Text

namespace Lexer

/-! ## Bytes -/

theorem byteLength_pos (c : Char) (cs : List Char) : 0 < byteLength (c :: cs) := by
  have hchar : byteLength [c] = c.utf8Size := by
    rw [byteLength, ← length_encodeUtf8, encodeUtf8_ofList, List.flatMap_singleton, length_charBytes]
  have hpos := c.utf8Size_pos
  rw [byteLength_cons]
  omega

theorem byteLength_toList (s : String) : byteLength s.toList = s.utf8ByteSize := by
  rw [byteLength, String.ofList_toList]

/-! ## Stretches of a line -/

/-- A text and the column at which it begins. -/
structure Stretch where
  col : Nat
  text : List Char

def Stretch.stop (s : Stretch) : Nat := s.col + byteLength s.text

/-- A text that begins at a column, and its stretches in order. What is not in them is white space, or a comment up to
the end. -/
inductive Covers : Nat → List Char → List Stretch → Prop
  | done {col : Nat} : Covers col [] []
  | comment {col : Nat} {cs : List Char} : Covers col (';' :: cs) []
  | blank {col : Nat} {c : Char} {cs : List Char} {ss : List Stretch} (hc : isWhiteSpace c = true)
    (h : Covers (col + byteLength [c]) cs ss) : Covers col (c :: cs) ss
  | stretch {col : Nat} {c : Char} {text cs : List Char} {ss : List Stretch} (hblank : isWhiteSpace c = false)
    (hcomment : c ≠ ';') (h : Covers (col + byteLength (c :: text)) cs ss) :
    Covers col (c :: text ++ cs) (⟨col, c :: text⟩ :: ss)

namespace Covers

variable {col : Nat} {cs : List Char} {s t : Stretch} {ss : List Stretch}

theorem blanks {text : List Char} (htext : ∀ c ∈ text, isWhiteSpace c = true)
    (h : Covers (col + byteLength text) cs ss) : Covers col (text ++ cs) ss := by
  induction text generalizing col with
  | nil => exact h
  | cons c text ih =>
    rw [List.forall_mem_cons] at htext
    rw [byteLength_cons, ← Nat.add_assoc] at h
    exact .blank htext.1 (ih htext.2 h)

theorem le_col (h : Covers col cs ss) : ∀ s ∈ ss, col ≤ s.col := by
  induction h with
  | done | comment => simp
  | blank _ _ ih => exact fun s hs => Nat.le_trans (Nat.le_add_right _ _) (ih s hs)
  | stretch _ _ _ ih =>
    exact List.forall_mem_cons.2 ⟨Nat.le_refl _, fun s hs => Nat.le_trans (Nat.le_add_right _ _) (ih s hs)⟩

theorem of_col_eq (h : Covers col cs (s :: ss)) (hcol : s.col = col) :
    ∃ rest, cs = s.text ++ rest ∧ Covers s.stop rest ss := by
  cases h with
  | @blank _ c _ _ _ h =>
    have hle := h.le_col s List.mem_cons_self
    have hpos := byteLength_pos c []
    omega
  | stretch _ _ h => exact ⟨_, rfl, h⟩

/-- Two stretches that touch may be one. -/
theorem glue {front : List Stretch} (h : Covers col cs (front ++ s :: t :: ss)) (htouch : s.stop = t.col) :
    Covers col cs (front ++ ⟨s.col, s.text ++ t.text⟩ :: ss) := by
  generalize hall : front ++ s :: t :: ss = all at h
  induction h generalizing front with
  | done | comment => simp at hall
  | blank hc _ ih => exact .blank hc (ih hall)
  | @stretch col c text cs all hblank hcomment h ih =>
    cases front with
    | nil =>
      obtain ⟨rfl, rfl⟩ := List.cons.inj hall
      obtain ⟨rest, rfl, hrest⟩ := h.of_col_eq htouch.symm
      rw [← List.append_assoc]
      refine .stretch hblank hcomment ?_
      have hstop : t.stop = col + byteLength (c :: (text ++ t.text)) := by
        rw [Stretch.stop, ← htouch, Stretch.stop, Nat.add_assoc, ← byteLength_append]
        rfl
      exact hstop ▸ hrest
    | cons f front =>
      obtain ⟨rfl, hrest⟩ := List.cons.inj hall
      exact .stretch hblank hcomment (ih hrest)

/-! ### What covering means -/

/-- A stretch is where it says, with no blank at its start. -/
theorem located (h : Covers col cs ss) : ∀ s ∈ ss, ∃ before after,
    cs = before ++ s.text ++ after ∧ s.col = col + byteLength before ∧ 0 < byteLength s.text := by
  induction h with
  | done | comment => simp
  | @blank col c cs ss _ _ ih =>
    intro s hs
    obtain ⟨before, after, rfl, hcol, hpos⟩ := ih s hs
    refine ⟨c :: before, after, rfl, ?_, hpos⟩
    rw [hcol, Nat.add_assoc, ← byteLength_cons]
  | @stretch col c text cs ss _ _ _ ih =>
    refine List.forall_mem_cons.2 ⟨⟨[], cs, rfl, rfl, byteLength_pos c text⟩, fun s hs => ?_⟩
    obtain ⟨before, after, rfl, hcol, hpos⟩ := ih s hs
    refine ⟨c :: text ++ before, after, by simp only [List.append_assoc], ?_, hpos⟩
    rw [hcol, byteLength_append, Nat.add_assoc]

theorem ordered (h : Covers col cs ss) : ss.Pairwise fun s t => s.stop ≤ t.col := by
  induction h with
  | done | comment => exact .nil
  | blank _ _ ih => exact ih
  | stretch _ _ h ih => exact .cons h.le_col ih

/-- A character is in a stretch, or white space, or in a comment behind all stretches. -/
theorem outside (h : Covers col cs ss) {before after : List Char} {c : Char} (hcs : cs = before ++ c :: after) :
    (∃ s ∈ ss, s.col ≤ col + byteLength before ∧ col + byteLength before < s.stop) ∨ isWhiteSpace c = true ∨
      ∃ front comment, cs = front ++ ';' :: comment ∧ front.length ≤ before.length ∧
        ∀ s ∈ ss, s.stop ≤ col + byteLength front := by
  induction h generalizing before with
  | done => simp at hcs
  | @comment _ cs => exact .inr (.inr ⟨[], cs, rfl, Nat.zero_le _, by simp⟩)
  | @blank col d cs ss hd h ih =>
    cases before with
    | nil =>
      obtain ⟨rfl, rfl⟩ := List.cons.inj hcs
      exact .inr (.inl hd)
    | cons b before =>
      obtain ⟨rfl, rfl⟩ := List.cons.inj hcs
      rw [byteLength_cons, ← Nat.add_assoc]
      obtain hin | hc | ⟨front, comment, hcs, hlength, hbehind⟩ := ih rfl
      · exact .inl hin
      · exact .inr (.inl hc)
      · refine .inr (.inr ⟨d :: front, comment, by rw [hcs]; rfl, Nat.succ_le_succ hlength, fun s hs => ?_⟩)
        rw [byteLength_cons, ← Nat.add_assoc]
        exact hbehind s hs
  | @stretch col d text cs ss hblank hcomment h ih =>
    have hbehind (behind : List Char) (hbefore : before = d :: text ++ behind) (hrest : cs = behind ++ c :: after) :
        (∃ s ∈ (⟨col, d :: text⟩ : Stretch) :: ss, s.col ≤ col + byteLength before ∧ col + byteLength before < s.stop) ∨
          isWhiteSpace c = true ∨ ∃ front comment, d :: text ++ cs = front ++ ';' :: comment ∧
            front.length ≤ before.length ∧
            ∀ s ∈ (⟨col, d :: text⟩ : Stretch) :: ss, s.stop ≤ col + byteLength front := by
      subst hbefore
      rw [byteLength_append, ← Nat.add_assoc]
      obtain ⟨s, hs, hin⟩ | hc | ⟨front, comment, hcs, hlength, hstop⟩ := ih hrest
      · exact .inl ⟨s, List.mem_cons_of_mem _ hs, hin⟩
      · exact .inr (.inl hc)
      · refine .inr (.inr ⟨d :: text ++ front, comment, by rw [hcs, List.append_assoc], ?_, ?_⟩)
        · simp only [List.length_append]
          omega
        · rw [byteLength_append, ← Nat.add_assoc]
          exact List.forall_mem_cons.2 ⟨Nat.le_add_right _ _, hstop⟩
    obtain ⟨behind, hbefore, hrest⟩ | ⟨inside, htext, hrest⟩ := List.append_eq_append_iff.1 hcs
    · exact hbehind behind hbefore hrest
    · cases inside with
      | nil => exact hbehind [] (by rw [htext, List.append_nil, List.append_nil]) hrest.symm
      | cons e inside =>
        refine .inl ⟨_, List.mem_cons_self, Nat.le_add_right _ _, ?_⟩
        have hpos := byteLength_pos e inside
        show col + byteLength before < col + byteLength (d :: text)
        rw [htext, byteLength_append]
        omega

/-- A line is covered by nothing if and only if it is white space and a comment. -/
theorem eq_nil_iff (h : Covers col cs ss) : ss = [] ↔ ∃ blanks comment, cs = blanks ++ comment ∧
    (∀ c ∈ blanks, isWhiteSpace c = true) ∧ (comment = [] ∨ comment.head? = some ';') := by
  induction h with
  | done => exact ⟨fun _ => ⟨[], [], by simp⟩, fun _ => rfl⟩
  | @comment _ cs => exact ⟨fun _ => ⟨[], ';' :: cs, by simp⟩, fun _ => rfl⟩
  | @blank col c cs ss hc h ih =>
    rw [ih]
    constructor
    · rintro ⟨blanks, comment, rfl, hblanks, hcomment⟩
      exact ⟨c :: blanks, comment, rfl, List.forall_mem_cons.2 ⟨hc, hblanks⟩, hcomment⟩
    · rintro ⟨blanks, comment, hcs, hblanks, hcomment⟩
      cases blanks with
      | nil =>
        rw [List.nil_append] at hcs
        subst hcs
        obtain hnil | hhead := hcomment
        · cases hnil
        · cases hhead
          exact absurd hc (by decide)
      | cons b blanks =>
        obtain ⟨rfl, rfl⟩ := List.cons.inj hcs
        rw [List.forall_mem_cons] at hblanks
        exact ⟨blanks, comment, rfl, hblanks.2, hcomment⟩
  | @stretch col c text cs ss hblank hcomment h ih =>
    refine ⟨nofun, ?_⟩
    rintro ⟨blanks, comment, hcs, hblanks, hhead⟩
    cases blanks with
    | nil =>
      rw [List.nil_append] at hcs
      subst hcs
      obtain hnil | hhead := hhead
      · cases hnil
      · exact absurd (Option.some.inj hhead) hcomment
    | cons b blanks =>
      obtain ⟨rfl, -⟩ := List.cons.inj hcs
      rw [hblanks _ List.mem_cons_self] at hblank
      cases hblank

end Covers

/-! ## Pieces -/

def Piece.stretch (p : Piece) : Stretch := ⟨p.col, p.text⟩

/-- What a pattern of a token cuts begins with no blank and no comment. -/
theorem head_of_firstMatch? {c : Char} {cs : List Char} {kind : Kind} {n : Nat}
    (h : firstMatch? (c :: cs) = some (some kind, n)) : isWhiteSpace c = false ∧ c ≠ ';' := by
  constructor
  · by_contra hc
    rw [Bool.not_eq_false] at hc
    rw [firstMatch?_of_blank hc] at h
    cases h
  · rintro rfl
    cases h

/-- What is cut and is no token is a comment up to the end, or white space. -/
theorem gap_of_firstMatch? {cs : List Char} {n : Nat} (h : firstMatch? cs = some (none, n)) :
    (∃ rest, cs = ';' :: rest ∧ cs.drop n = []) ∨ ∀ c ∈ cs.take n, isWhiteSpace c = true := by
  obtain ⟨pattern, hmem, hpattern⟩ := mem_of_firstMatch? h
  obtain rfl | rfl : pattern = comment ∨ pattern = blanks := by simpa [patterns] using hmem
  · unfold comment at hpattern
    split at hpattern
    · next rest =>
      cases hpattern
      exact .inl ⟨rest, rfl, List.drop_length⟩
    · cases hpattern
  · right
    unfold blanks nonEmpty at hpattern
    split at hpattern
    · cases hpattern
    · cases hpattern
      intro c hc
      rw [run, ← List.prefix_iff_eq_take.1 (List.takeWhile_prefix _)] at hc
      exact List.all_eq_true.1 List.all_takeWhile c hc

theorem scan_covers {line col : Nat} {cs : List Char} {pieces : List Piece} (h : scan line col cs = .ok pieces) :
    Covers col cs (pieces.map Piece.stretch) := by
  induction hn : cs.length using Nat.strongRecOn generalizing col cs pieces with
  | ind n ih =>
    rw [scan] at h
    split at h
    · next hempty =>
      cases h
      rw [List.isEmpty_iff.1 hempty]
      exact .done
    · next hempty =>
      rw [List.isEmpty_iff] at hempty
      obtain ⟨c, cs, rfl⟩ := List.exists_cons_of_ne_nil hempty
      split at h
      · next kind? k hmatch =>
        obtain ⟨more, hmore, h⟩ := bind_eq_ok.1 h
        have hcovers := ih ((c :: cs).drop (k + 1)).length (by simp at hn ⊢; omega) hmore rfl
        have hsplit : c :: cs = c :: cs.take k ++ cs.drop k := (List.take_append_drop (k + 1) (c :: cs)).symm
        split at h
        · cases h
          obtain ⟨hblank, hcomment⟩ := head_of_firstMatch? hmatch
          show Covers col (c :: cs) (⟨col, c :: cs.take k⟩ :: more.map Piece.stretch)
          rw [hsplit]
          exact .stretch hblank hcomment hcovers
        · cases h
          obtain ⟨rest, hcs, hdrop⟩ | hblanks := gap_of_firstMatch? hmatch
          · rw [hdrop, scan_nil] at hmore
            cases hmore
            exact hcs ▸ .comment
          · rw [hsplit]
            exact hcovers.blanks hblanks
      · cases h

end Lexer

/-! ## Tokens -/

def Token.stretch (t : Token) : Lexer.Stretch := ⟨t.loc.col, t.raw.toList⟩

namespace Lexer

theorem stop_stretch (t : Token) : t.stretch.stop = t.endCol := by
  rw [Stretch.stop, Token.stretch, byteLength_toList]
  rfl

theorem stretch_token {n : Nat} {p : Piece} {t : Token} (h : p.token n = .ok t) :
    t.stretch = p.stretch ∧ t.loc.line = n := by
  unfold Piece.token at h
  dsimp only at h
  split at h
  · cases h
    exact ⟨congrArg (Stretch.mk p.col) String.toList_ofList, rfl⟩
  · cases h

/-- A piece becomes a token of its own, or lengthens the name that ends where it begins. -/
theorem addPiece_stretch {n : Nat} {done done' : List Token} {p : Piece} (h : addPiece n done p = .ok done') :
    (∃ t, done' = t :: done ∧ t.stretch = p.stretch ∧ t.loc.line = n) ∨
    ∃ t u earlier, done = t :: earlier ∧ done' = u :: earlier ∧ t.stretch.stop = p.col ∧
      u.stretch = ⟨t.stretch.col, t.stretch.text ++ p.text⟩ ∧ u.loc.line = t.loc.line := by
  have hpush (h : (p.token n).map (· :: done) = .ok done') :
      ∃ t, done' = t :: done ∧ t.stretch = p.stretch ∧ t.loc.line = n := by
    obtain ⟨t, ht, rfl⟩ := map_eq_ok.1 h
    exact ⟨t, rfl, stretch_token ht⟩
  unfold addPiece at h
  split at h
  · next name raw loc earlier =>
    split at h
    · next htouch =>
      cases h
      refine .inr ⟨_, _, earlier, rfl, rfl, ?_, ?_, rfl⟩
      · rw [stop_stretch]
        exact htouch.1
      · simp [Token.stretch]
    · exact .inl (hpush h)
  · exact .inl (hpush h)

/-- The tokens made so far and the pieces still to come cover a line as the pieces did. -/
theorem foldlM_addPiece_covers {n col : Nat} {cs : List Char} {pieces : List Piece} {done done' : List Token}
    (h : pieces.foldlM (addPiece n) done = .ok done') (hline : ∀ t ∈ done, t.loc.line = n)
    (hcovers : Covers col cs (done.reverse.map Token.stretch ++ pieces.map Piece.stretch)) :
    (∀ t ∈ done', t.loc.line = n) ∧ Covers col cs (done'.reverse.map Token.stretch) := by
  induction pieces generalizing done with
  | nil =>
    cases h
    rw [List.map_nil, List.append_nil] at hcovers
    exact ⟨hline, hcovers⟩
  | cons p pieces ih =>
    obtain ⟨mid, hmid, h⟩ := foldlM_cons_eq_ok.1 h
    rw [List.map_cons] at hcovers
    obtain ⟨t, rfl, hstretch, ht⟩ | ⟨t, u, earlier, rfl, rfl, htouch, hstretch, hu⟩ := addPiece_stretch hmid
    · refine ih h (List.forall_mem_cons.2 ⟨ht, hline⟩) ?_
      rw [List.reverse_cons, List.map_append, List.append_assoc, List.map_singleton, hstretch]
      exact hcovers
    · rw [List.forall_mem_cons] at hline
      refine ih h (List.forall_mem_cons.2 ⟨hu.trans hline.1, hline.2⟩) ?_
      rw [List.reverse_cons, List.map_append, List.append_assoc, List.map_singleton] at hcovers ⊢
      rw [hstretch]
      exact hcovers.glue htouch

theorem map_inContext_stretch (leadingLabel : Bool) (pieces : List Piece) :
    (pieces.zipIdx.map fun (p, place) => p.inContext leadingLabel place).map Piece.stretch =
      pieces.map Piece.stretch := by
  have hstretch (q : Piece × Nat) : (q.1.inContext leadingLabel q.2).stretch = q.1.stretch := by
    unfold Piece.inContext
    split <;> rfl
  rw [List.map_map, ← List.zipIdx_map_fst 0 pieces, List.map_map, List.zipIdx_map_fst]
  exact List.map_congr_left fun q _ => hstretch q

/-- The tokens of a line cover it. -/
theorem tokenizeLine_covers {n : Nat} {cs : List Char} {line : Line} (h : tokenizeLine n cs = .ok line) :
    (∀ t ∈ line.tokens, t.loc.line = n) ∧ Covers 1 cs (line.tokens.map Token.stretch) := by
  obtain ⟨pieces, hpieces, h⟩ := bind_eq_ok.1 h
  obtain ⟨tokens, htokens, h⟩ := bind_eq_ok.1 h
  cases h
  obtain ⟨done, hdone, htokens⟩ := bind_eq_ok.1 htokens
  cases htokens
  have hcovers := scan_covers hpieces
  rw [← map_inContext_stretch (pieces.head?.any (·.kind == .label))] at hcovers
  obtain ⟨hline, hcovers⟩ := foldlM_addPiece_covers hdone (by simp) hcovers
  exact ⟨fun t ht => hline t (List.mem_reverse.1 ht), hcovers⟩

end Lexer

open Lexer

/-- The tokens of a line, beside the line's text. They stand in it where they say, one behind the other; and every
character of the text is in one of them, or white space, or in a comment behind all of them. -/
structure Line.Stands (line : Line) (cs : List Char) : Prop where
  located : ∀ t ∈ line.tokens, t.loc.line = line.number ∧ 1 ≤ t.loc.col ∧
    ((encodeUtf8 (String.ofList cs)).drop (t.loc.col - 1)).take t.raw.utf8ByteSize = encodeUtf8 t.raw
  ordered : line.tokens.Pairwise fun t u => t.endCol ≤ u.loc.col
  nonempty : ∀ t ∈ line.tokens, t.loc.col < t.endCol
  outside : ∀ before c after, cs = before ++ c :: after →
    (∃ t ∈ line.tokens, t.loc.col ≤ 1 + byteLength before ∧ 1 + byteLength before < t.endCol) ∨
      isWhiteSpace c = true ∨ ∃ front comment, cs = front ++ ';' :: comment ∧ front.length ≤ before.length ∧
        ∀ t ∈ line.tokens, t.endCol ≤ 1 + byteLength front

theorem stands_of_covers {line : Line} {cs : List Char} (hline : ∀ t ∈ line.tokens, t.loc.line = line.number)
    (h : Covers 1 cs (line.tokens.map Token.stretch)) : line.Stands cs where
  located t ht := by
    obtain ⟨before, after, rfl, hcol, -⟩ := h.located t.stretch (List.mem_map_of_mem ht)
    replace hcol : t.loc.col = 1 + byteLength before := hcol
    refine ⟨hline t ht, by omega, ?_⟩
    have hbefore : (encodeUtf8 (String.ofList before)).length = t.loc.col - 1 := by
      rw [length_encodeUtf8, hcol]
      exact (Nat.add_sub_cancel_left 1 _).symm
    simp only [Token.stretch, String.ofList_append, encodeUtf8_append, String.ofList_toList, List.append_assoc]
    rw [List.drop_left' hbefore, List.take_left' (length_encodeUtf8 t.raw)]
  ordered := by
    have hordered := List.pairwise_map.1 h.ordered
    simp only [stop_stretch] at hordered
    exact hordered
  nonempty t ht := by
    obtain ⟨-, -, -, -, hpos⟩ := h.located t.stretch (List.mem_map_of_mem ht)
    rw [← stop_stretch]
    exact Nat.lt_add_of_pos_right hpos
  outside before c after hcs := by
    have houtside := h.outside hcs
    simp only [List.mem_map, exists_exists_and_eq_and, forall_exists_index, and_imp, forall_apply_eq_imp_iff₂,
      stop_stretch] at houtside
    exact houtside

/-- The lines of a source that are tokenized are those whose texts give tokens. -/
theorem tokenizeLine_of_tokenize {source : String} {lines : List Line} (h : tokenize source = .ok lines) :
    (∀ i cs, (Text.lines source.toList)[i]? = some cs →
      ∃ line, tokenizeLine (i + 1) cs = .ok line ∧ (line.tokens ≠ [] → line ∈ lines)) ∧
    ∀ line ∈ lines, line.tokens ≠ [] ∧
      ∃ i cs, (Text.lines source.toList)[i]? = some cs ∧ tokenizeLine (i + 1) cs = .ok line := by
  obtain ⟨all, hall, rfl⟩ := tokenize_eq_ok_iff.1 h
  obtain ⟨hlength, hget⟩ := List.forall₂_iff_get.1 hall
  rw [List.length_zipIdx] at hlength
  constructor
  · intro i cs hcs
    obtain ⟨hi, rfl⟩ := List.getElem?_eq_some_iff.1 hcs
    have hline := hget i (by simpa using hi) (by omega)
    simp only [List.get_eq_getElem, List.getElem_zipIdx, Nat.zero_add] at hline
    refine ⟨_, hline, fun htokens => List.mem_filter.2 ⟨List.getElem_mem _, ?_⟩⟩
    simpa using htokens
  · intro line hline
    obtain ⟨hmem, htokens⟩ := List.mem_filter.1 hline
    obtain ⟨i, hi, rfl⟩ := List.mem_iff_getElem.1 hmem
    have hline := hget i (by simpa [hlength] using hi) hi
    simp only [List.get_eq_getElem, List.getElem_zipIdx, Nat.zero_add] at hline
    exact ⟨by simpa using htokens, i, _, List.getElem?_eq_getElem (by omega), hline⟩

/-- Tokenizing loses nothing but white space and comments, and puts every token where it stands. The lines have the
numbers of their texts in the source, in order; each line stands in its text; and a text has no line if and only if it
is white space and a comment. -/
theorem tokenize_located (source : String) (lines : List Line) (h : tokenize source = .ok lines) :
    lines.Pairwise (fun l l' => l.number < l'.number) ∧
    (∀ line ∈ lines, 1 ≤ line.number ∧
      ∃ cs, (Text.lines source.toList)[line.number - 1]? = some cs ∧ line.Stands cs) ∧
    ∀ i cs, (Text.lines source.toList)[i]? = some cs → ((∀ line ∈ lines, line.number ≠ i + 1) ↔
      ∃ blanks comment, cs = blanks ++ comment ∧ (∀ c ∈ blanks, isWhiteSpace c = true) ∧
        (comment = [] ∨ comment.head? = some ';')) := by
  obtain ⟨hlines, hmem⟩ := tokenizeLine_of_tokenize h
  refine ⟨tokenize_pairwise h, fun line hline => ?_, fun i cs hcs => ?_⟩
  · obtain ⟨-, i, cs, hcs, hline⟩ := hmem line hline
    have hnumber := number_of_tokenizeLine hline
    obtain ⟨htokens, hcovers⟩ := tokenizeLine_covers hline
    rw [← hnumber] at htokens
    refine ⟨by omega, cs, ?_, stands_of_covers htokens hcovers⟩
    rw [hnumber]
    exact hcs
  · obtain ⟨line, hline, hkept⟩ := hlines i cs hcs
    obtain ⟨-, hcovers⟩ := tokenizeLine_covers hline
    rw [← hcovers.eq_nil_iff, List.map_eq_nil_iff]
    constructor
    · intro hmissing
      by_contra htokens
      exact hmissing line (hkept htokens) (number_of_tokenizeLine hline)
    · intro htokens line' hline' hnumber
      obtain ⟨hne, j, cs', hcs', hline'⟩ := hmem line' hline'
      have hj := number_of_tokenizeLine hline'
      obtain rfl : i = j := by omega
      obtain rfl : cs = cs' := Option.some.inj (hcs.symm.trans hcs')
      obtain rfl : line = line' := Except.ok.inj (hline.symm.trans hline')
      exact hne htokens

/-- A line, a comment, and a line with a name in two pieces, of which the first is not ASCII. -/
def gluedSource : String := "NOP\n ; \u00e4\nRJMP gr\u00f6\u00dfe.x"

theorem tokenize_located_glued : ∃ line : Line,
    tokenize gluedSource = .ok [⟨1, [⟨.inst "NOP", "NOP", ⟨1, 1⟩⟩]⟩, line] ∧
      line.tokens = [⟨.inst "RJMP", "RJMP", ⟨3, 1⟩⟩, ⟨.ref "gr\u00f6\u00dfe.x", "gr\u00f6\u00dfe.x", ⟨3, 6⟩⟩] ∧
      line.Stands "RJMP gr\u00f6\u00dfe.x".toList := by
  let line : Line :=
    ⟨3, [⟨.inst "RJMP", "RJMP", ⟨3, 1⟩⟩, ⟨.ref "gr\u00f6\u00dfe.x", "gr\u00f6\u00dfe.x", ⟨3, 6⟩⟩]⟩
  have hlines : tokenize gluedSource = .ok [⟨1, [⟨.inst "NOP", "NOP", ⟨1, 1⟩⟩]⟩, line] := by decide +kernel
  obtain ⟨-, hstands, -⟩ := tokenize_located gluedSource _ hlines
  obtain ⟨-, cs, hcs, hline⟩ := hstands line (by simp)
  have htext : (Text.lines gluedSource.toList)[2]? = some "RJMP gr\u00f6\u00dfe.x".toList := by decide +kernel
  obtain rfl := Option.some.inj (hcs.symm.trans htext)
  exact ⟨line, hlines, rfl, hline⟩

end Avr

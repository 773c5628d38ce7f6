import Avr.Proofs.Results
import Avr.Proofs.Token.Pieces
import Avr.Token.Lexer

/-!
# Lines of a word and a list

* `Alternates` : items related to the elements of a list, with commas between them;
* `scan_of_firstMatch?`, `scan_blank` : what a pattern takes is cut off; `scan_list` : how a list with commas is cut;
* `Spells` : a text that is one piece with a meaning;
* `lineText` : a word, then a list with commas; `tokenizeLine_lineText` : the tokens of such a line.
-/

namespace Avr

/-- The second list has an item for each element of the first one, related to it, and commas between the items. -/
inductive Alternates {α β : Type} (R : α → β → Prop) (C : β → Prop) : List α → List β → Prop
  | nil : Alternates R C [] []
  | one {a : α} {b : β} (h : R a b) : Alternates R C [a] [b]
  | cons {a a' : α} {b c : β} {as : List α} {bs : List β} (h : R a b) (hc : C c) (hrest : Alternates R C (a' :: as) bs) :
    Alternates R C (a :: a' :: as) (b :: c :: bs)

namespace Lexer

open Text

/-! ## Cutting -/

theorem scan_nil (line col : Nat) : scan line col [] = .ok [] := by
  rw [scan]
  rfl

theorem byteLength_append (cs ds : List Char) : byteLength (cs ++ ds) = byteLength cs + byteLength ds := by
  rw [byteLength, String.ofList_append, String.utf8ByteSize_append]
  rfl

theorem byteLength_cons (c : Char) (cs : List Char) : byteLength (c :: cs) = byteLength [c] + byteLength cs :=
  byteLength_append [c] cs

theorem scan_of_firstMatch? {kind : Kind} {t rest : List Char} (ht : t ≠ [])
    (h : firstMatch? (t ++ rest) = some (some kind, t.length)) (line col : Nat) :
    scan line col (t ++ rest) = (scan line (col + byteLength t) rest).map (⟨kind, t, col⟩ :: ·) := by
  obtain ⟨c, cs, rfl⟩ := List.exists_cons_of_ne_nil ht
  have htake : (c :: cs ++ rest).take (cs.length + 1) = c :: cs := List.take_left' rfl
  have hdrop : (c :: cs ++ rest).drop (cs.length + 1) = rest := List.drop_left' rfl
  rw [List.length_cons] at h
  rw [scan, if_neg (by simp), h]
  dsimp only
  rw [htake, hdrop]
  cases scan line (col + byteLength (c :: cs)) rest <;> rfl

/-- A piece is cut off whatever may stand behind it. -/
theorem scan_piece {kind : Kind} {t rest : List Char} (ht : IsPiece kind t) (hrest : Stops rest) (line col : Nat) :
    scan line col (t ++ rest) = (scan line (col + byteLength t) rest).map (⟨kind, t, col⟩ :: ·) :=
  scan_of_firstMatch? ht.nonEmpty (ht.cut rest hrest) line col

theorem scan_comma (line col : Nat) (cs : List Char) :
    scan line col (',' :: cs) = (scan line (col + 1) cs).map (⟨.comma, [','], col⟩ :: ·) :=
  scan_of_firstMatch? (List.cons_ne_nil ',' []) (firstMatch?_comma cs) line col

theorem scan_blanks {c : Char} (hc : isWhiteSpace c = true) (line col : Nat) (cs : List Char) :
    scan line col (c :: cs) =
      scan line (col + byteLength (c :: cs.takeWhile isWhiteSpace)) (cs.dropWhile isWhiteSpace) := by
  have htake : cs.take (run isWhiteSpace cs) = cs.takeWhile isWhiteSpace :=
    (List.prefix_iff_eq_take.1 (List.takeWhile_prefix _)).symm
  rw [scan, if_neg (by simp), firstMatch?_of_blank hc]
  dsimp only
  rw [List.take_succ_cons, List.drop_succ_cons, htake, drop_run]
  generalize scan line _ _ = rest
  cases rest <;> rfl

/-- White space is passed over one character at a time as it is all at once. -/
theorem scan_blank {c : Char} (hc : isWhiteSpace c = true) (line col : Nat) (cs : List Char) :
    scan line col (c :: cs) = scan line (col + byteLength [c]) cs := by
  rw [scan_blanks hc]
  cases cs with
  | nil => rfl
  | cons d ds =>
    by_cases hd : isWhiteSpace d = true
    · rw [scan_blanks hd, List.takeWhile_cons_of_pos hd, List.dropWhile_cons_of_pos hd, byteLength_cons c,
        Nat.add_assoc]
    · rw [List.takeWhile_cons_of_neg hd, List.dropWhile_cons_of_neg hd]

theorem scan_space (line col : Nat) (cs : List Char) : scan line col (' ' :: cs) = scan line (col + 1) cs :=
  scan_blank (by decide) line col cs

/-- A text that is one piece, and what that piece means where it is no first word of a line. -/
structure Spells (t : List Char) (kind : Kind) (x : Lexeme) : Prop where
  piece : IsPiece kind t
  read : readLexeme (if kind = .inst then .ref else kind) t = .ok x

variable {α : Type} {text : α → List Char} {kind : α → Kind} {lexeme : α → Lexeme}

/-- A list with commas is cut into its texts and the commas. -/
theorem scan_list {as : List α} (has : ∀ a ∈ as, IsPiece (kind a) (text a)) (line col : Nat) :
    ∃ pieces, scan line col ([',', ' '].intercalate (as.map text)) = .ok pieces ∧
      Alternates (fun a p => p.kind = kind a ∧ p.text = text a) (fun p => p.kind = .comma ∧ p.text = [',']) as pieces := by
  induction as generalizing col with
  | nil => exact ⟨[], scan_nil line col, .nil⟩
  | cons a as ih =>
    rw [List.forall_mem_cons] at has
    cases as with
    | nil =>
      have hscan := scan_piece has.1 (.inl rfl) line col
      rw [List.append_nil, scan_nil] at hscan
      rw [List.map_singleton, List.intercalate_singleton, hscan]
      exact ⟨[_], rfl, .one ⟨rfl, rfl⟩⟩
    | cons a' as =>
      obtain ⟨pieces, hpieces, halternates⟩ := ih has.2 (col + byteLength (text a) + 1 + 1)
      rw [List.map_cons, List.map_cons, List.intercalate_cons_cons, ← List.map_cons, List.append_assoc,
        List.cons_append, List.cons_append, List.nil_append, scan_piece has.1 (.inr ⟨',', _, rfl, .inr rfl⟩),
        scan_comma, scan_space, hpieces]
      exact ⟨_, rfl, .cons ⟨rfl, rfl⟩ ⟨rfl, rfl⟩ halternates⟩

/-! ## Joining -/

def Piece.later (p : Piece) : Piece := if p.kind = .inst then { p with kind := .ref } else p

theorem inContext_later {pieces : List Piece} {k : Nat} (hk : k ≠ 0) :
    (pieces.zipIdx k).map (fun (p, place) => p.inContext false place) = pieces.map Piece.later := by
  induction pieces generalizing k with
  | nil => rfl
  | cons p pieces ih =>
    rw [List.zipIdx_cons, List.map_cons, List.map_cons, ih (Nat.succ_ne_zero k)]
    congr 1
    unfold Piece.inContext Piece.later
    dsimp only
    by_cases hp : p.kind = .inst
    · rw [if_pos ⟨hp, hk, by simp⟩, if_pos hp]
    · rw [if_neg (fun h => hp h.1), if_neg hp]

/-- Tokens that no piece goes on: there is none, or the last one is no name. -/
def Settled (done : List Token) : Prop := ∀ name raw loc earlier, done ≠ ⟨.ref name, raw, loc⟩ :: earlier

theorem addPiece_of_settled {done : List Token} (h : Settled done) (line : Nat) (p : Piece) :
    addPiece line done p = (p.token line).map (· :: done) := by
  unfold addPiece
  split
  · next name raw loc earlier => exact absurd rfl (h name raw loc earlier)
  · rfl

theorem addPiece_comma {p : Piece} (hp : p.kind = .comma ∧ p.text = [',']) (line : Nat) (done : List Token) :
    addPiece line done p = .ok (⟨.comma, ",", ⟨line, p.col⟩⟩ :: done) := by
  obtain ⟨kind, text, col⟩ := p
  obtain ⟨rfl, rfl⟩ := hp
  have htoken : (⟨.comma, [','], col⟩ : Piece).token line = .ok ⟨.comma, ",", ⟨line, col⟩⟩ := rfl
  unfold addPiece
  split
  · next name raw loc earlier =>
    rw [if_neg (fun h => Bool.false_ne_true h.2), htoken]
    rfl
  · rw [htoken]
    rfl

theorem later_token {p : Piece} {k : Kind} {t : List Char} {x : Lexeme} (hp : p.kind = k ∧ p.text = t)
    (hx : Spells t k x) (line : Nat) : p.later.token line = .ok ⟨x, String.ofList t, ⟨line, p.col⟩⟩ := by
  obtain ⟨kind, text, col⟩ := p
  obtain ⟨rfl, rfl⟩ := hp
  have hread := hx.read
  have hlater : (⟨kind, text, col⟩ : Piece).later = ⟨if kind = .inst then .ref else kind, text, col⟩ := by
    unfold Piece.later
    dsimp only
    split <;> rfl
  rw [hlater]
  unfold Piece.token
  dsimp only
  rw [hread]

/-- The pieces of a list with commas become its tokens, one for each. By induction on the list: a name is followed by a
comma, which does not go on it. -/
theorem joins_list {as : List α} (has : ∀ a ∈ as, Spells (text a) (kind a) (lexeme a)) {pieces : List Piece}
    (h : Alternates (fun a p => p.kind = kind a ∧ p.text = text a) (fun p => p.kind = .comma ∧ p.text = [','])
      as pieces) (line : Nat) {done : List Token} (hdone : Settled done) :
    ∃ tokens, (pieces.map Piece.later).foldlM (addPiece line) done = .ok (tokens.reverse ++ done) ∧
      Alternates (fun a t => t.lexeme = lexeme a ∧ t.raw = String.ofList (text a)) (fun t => t.lexeme = .comma)
        as tokens := by
  induction h generalizing done with
  | nil => exact ⟨[], rfl, .nil⟩
  | @one a p hp =>
    have hfirst := addPiece_of_settled hdone line p.later
    rw [later_token hp (has a List.mem_cons_self)] at hfirst
    exact ⟨[_], foldlM_cons_eq_ok.2 ⟨_, hfirst, rfl⟩, .one ⟨rfl, rfl⟩⟩
  | @cons a a' p c as pieces hp hc hrest ih =>
    rw [List.forall_mem_cons] at has
    have hfirst := addPiece_of_settled hdone line p.later
    rw [later_token hp has.1] at hfirst
    have hlater : c.later = c := by
      unfold Piece.later
      rw [hc.1, if_neg nofun]
    have hsecond := addPiece_comma hc line (⟨lexeme a, String.ofList (text a), ⟨line, p.col⟩⟩ :: done)
    have hsettled : Settled (⟨.comma, ",", ⟨line, c.col⟩⟩ :: ⟨lexeme a, String.ofList (text a), ⟨line, p.col⟩⟩ :: done) :=
      fun _ _ _ _ h => nomatch h
    obtain ⟨tokens, htokens, halternates⟩ := ih has.2 hsettled
    refine ⟨⟨lexeme a, String.ofList (text a), ⟨line, p.col⟩⟩ :: ⟨.comma, ",", ⟨line, c.col⟩⟩ :: tokens, ?_,
      .cons ⟨rfl, rfl⟩ rfl halternates⟩
    rw [List.map_cons, List.map_cons, hlater]
    refine foldlM_cons_eq_ok.2 ⟨_, hfirst, foldlM_cons_eq_ok.2 ⟨_, hsecond, ?_⟩⟩
    rw [htokens, List.reverse_cons, List.reverse_cons, List.append_assoc, List.append_assoc]
    rfl

/-! ## Whole lines -/

/-- A word and, behind a blank, a list with commas, unless it is empty. -/
def lineText (head : List Char) (texts : List (List Char)) : List Char :=
  if texts.isEmpty then head else head ++ ' ' :: [',', ' '].intercalate texts

/-- The tokens of a line of a word and a list: one for the word, then those of the list. -/
theorem tokenizeLine_lineText {head : List Char} {k : Kind} {x : Lexeme} (hpiece : IsPiece k head)
    (hread : readLexeme k head = .ok x) (hk : k ≠ .label) (hx : ∀ name, x ≠ .ref name) {as : List α}
    (has : ∀ a ∈ as, Spells (text a) (kind a) (lexeme a)) (n : Nat) :
    ∃ t args, tokenizeLine n (lineText head (as.map text)) = .ok ⟨n, t :: args⟩ ∧ t.lexeme = x ∧
      Alternates (fun a u => u.lexeme = lexeme a ∧ u.raw = String.ofList (text a)) (fun u => u.lexeme = .comma)
        as args := by
  obtain ⟨pieces, hpieces, halternates⟩ : ∃ pieces,
      scan n 1 (lineText head (as.map text)) = .ok (⟨k, head, 1⟩ :: pieces) ∧
        Alternates (fun a p => p.kind = kind a ∧ p.text = text a) (fun p => p.kind = .comma ∧ p.text = [','])
          as pieces := by
    cases as with
    | nil =>
      have hscan := scan_piece hpiece (.inl rfl) n 1
      rw [List.append_nil, scan_nil] at hscan
      exact ⟨[], hscan, .nil⟩
    | cons a as =>
      obtain ⟨pieces, hpieces, halternates⟩ := scan_list (fun b hb => (has b hb).piece) n (1 + byteLength head + 1)
      refine ⟨pieces, ?_, halternates⟩
      unfold lineText
      rw [List.map_cons, List.isEmpty_cons, if_neg Bool.false_ne_true, ← List.map_cons,
        scan_piece hpiece (.inr ⟨' ', _, rfl, .inl rfl⟩), scan_space, hpieces]
      rfl
  have htoken : (⟨k, head, 1⟩ : Piece).token n = .ok ⟨x, String.ofList head, ⟨n, 1⟩⟩ := by
    unfold Piece.token
    dsimp only
    rw [hread]
  have hsettled : Settled [⟨x, String.ofList head, ⟨n, 1⟩⟩] := by
    intro name raw loc earlier h
    exact hx name (congrArg Token.lexeme (List.cons.inj h).1)
  obtain ⟨tokens, htokens, hargs⟩ := joins_list has halternates n hsettled
  refine ⟨_, tokens, bind_eq_ok.2 ⟨_, hpieces, bind_eq_ok.2 ⟨⟨x, String.ofList head, ⟨n, 1⟩⟩ :: tokens, ?_, rfl⟩⟩, rfl,
    hargs⟩
  have hleading : (⟨k, head, 1⟩ :: pieces : List Piece).head?.any (·.kind == .label) = false := beq_false_of_ne hk
  unfold joinPieces
  dsimp only
  rw [hleading, List.zipIdx_cons, List.map_cons, inContext_later (Nat.succ_ne_zero 0)]
  refine bind_eq_ok.2 ⟨tokens.reverse ++ [⟨x, String.ofList head, ⟨n, 1⟩⟩],
    foldlM_cons_eq_ok.2 ⟨[⟨x, String.ofList head, ⟨n, 1⟩⟩], ?_, htokens⟩, ?_⟩
  · have hfirst : (⟨k, head, 1⟩ : Piece).inContext false 0 = ⟨k, head, 1⟩ := by
      unfold Piece.inContext
      rw [if_neg (fun h => h.2.1 rfl)]
    have hempty : Settled [] := fun _ _ _ _ h => nomatch h
    dsimp only
    rw [hfirst, addPiece_of_settled hempty, htoken]
    rfl
  · rw [List.reverse_append, List.reverse_reverse]
    rfl

end Lexer

end Avr

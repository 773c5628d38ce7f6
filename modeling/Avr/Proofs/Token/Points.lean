import Avr.Proofs.Token.Located

/-!
# Places in a source

* `Lexer.Spot` : a column at which a text has a character other than white space; `Covers.spot` : stretches begin at
  one;
* `LexicalAt`, `tokenizeLine_yields` : an error in a line is at such a column;
* `Loc.Points` : a place in a source, in its lines and columns;
* `points_of_mem` : tokens are at such places; `tokenize_yields` : and so are the errors of the tokenizer.
-/

namespace Avr

open Text

namespace Lexer

/-! ## Columns -/

/-- A text that begins at a column `start` has a character other than white space at column `col`. -/
def Spot (start : Nat) (cs : List Char) (col : Nat) : Prop :=
  ∃ before c after, cs = before ++ c :: after ∧ col = start + byteLength before ∧ isWhiteSpace c = false

theorem Spot.behind {start col : Nat} {text cs : List Char} (h : Spot (start + byteLength text) cs col) :
    Spot start (text ++ cs) col := by
  obtain ⟨before, c, after, rfl, rfl, hc⟩ := h
  exact ⟨text ++ before, c, after, (List.append_assoc ..).symm, by rw [byteLength_append, Nat.add_assoc], hc⟩

theorem Covers.spot {col : Nat} {cs : List Char} {ss : List Stretch} (h : Covers col cs ss) :
    ∀ s ∈ ss, Spot col cs s.col := by
  induction h with
  | done | comment => simp
  | @blank col c cs _ _ _ ih =>
    intro s hs
    have hspot : Spot col ([c] ++ cs) s.col := (ih s hs).behind
    exact hspot
  | @stretch col c text cs _ hblank _ _ ih =>
    refine List.forall_mem_cons.2 ⟨⟨[], c, text ++ cs, rfl, rfl, hblank⟩, fun s hs => ?_⟩
    exact (ih s hs).behind

/-! ## Errors in a line -/

/-- An error of the tokenizer at one of some columns of a line. -/
def LexicalAt (line : Nat) (p : Nat → Prop) (d : Diagnostic) : Prop :=
  (∃ e, d.cause = .lexical e) ∧ ∃ col, p col ∧ d.loc = some ⟨line, col⟩

theorem LexicalAt.imp {line : Nat} {p q : Nat → Prop} (h : ∀ col, p col → q col) (d : Diagnostic) :
    LexicalAt line p d → LexicalAt line q d := by
  rintro ⟨he, col, hcol, hd⟩
  exact ⟨he, col, h col hcol, hd⟩

/-- What no pattern cuts does not begin with white space. -/
theorem scan_yields (line col : Nat) (cs : List Char) :
    Yields (LexicalAt line (Spot col cs)) (fun _ => True) (scan line col cs) := by
  induction hn : cs.length using Nat.strongRecOn generalizing col cs with
  | ind n ih =>
    rw [scan]
    split
    · exact .ok trivial
    · next hempty =>
      rw [List.isEmpty_iff] at hempty
      obtain ⟨c, cs, rfl⟩ := List.exists_cons_of_ne_nil hempty
      split
      · next kind? k _ =>
        have hrest := ih ((c :: cs).drop (k + 1)).length (by simp at hn ⊢; omega) (col + byteLength (c :: cs.take k))
          ((c :: cs).drop (k + 1)) rfl
        have hsplit : c :: cs.take k ++ (c :: cs).drop (k + 1) = c :: cs := List.take_append_drop (k + 1) (c :: cs)
        refine (hrest.imp (LexicalAt.imp fun _ h => hsplit ▸ h.behind)).bind fun pieces _ => ?_
        cases kind? <;> exact .ok trivial
      · next hnone =>
        have hc : isWhiteSpace c = false := by
          by_contra hc
          exact hnone none _ (firstMatch?_of_blank (Bool.not_eq_false _ ▸ hc) cs)
        exact .error ⟨⟨_, rfl⟩, col, ⟨[], c, cs, rfl, rfl, hc⟩, rfl⟩

theorem token_yields (n : Nat) (p : Piece) :
    Yields (LexicalAt n (· = p.col)) (fun _ => True) (p.token n) := by
  unfold Piece.token
  dsimp only
  split
  · exact .ok trivial
  · exact .error ⟨⟨_, rfl⟩, p.col, rfl, rfl⟩

theorem addPiece_yields (n : Nat) (done : List Token) (p : Piece) :
    Yields (LexicalAt n (· = p.col)) (fun _ => True) (addPiece n done p) := by
  have htoken : Yields (LexicalAt n (· = p.col)) (fun _ => True) ((p.token n).map (· :: done)) :=
    (token_yields n p).map fun _ _ => trivial
  unfold addPiece
  split
  · split
    · exact .ok trivial
    · exact htoken
  · exact htoken

/-- An error among the pieces of a line is at one of them. -/
theorem joinPieces_yields (n : Nat) (pieces : List Piece) :
    Yields (LexicalAt n fun col => ∃ s ∈ pieces.map Piece.stretch, col = s.col) (fun _ => True)
      (joinPieces n pieces) := by
  rw [← map_inContext_stretch (pieces.head?.any (·.kind == .label))]
  unfold joinPieces
  refine Yields.bind (.foldlM (I := fun _ => True) trivial fun done p hp _ => ?_) fun _ _ => trivial
  refine (addPiece_yields n done p).imp (LexicalAt.imp ?_)
  rintro col rfl
  exact ⟨p.stretch, List.mem_map_of_mem hp, rfl⟩

theorem tokenizeLine_yields (n : Nat) (cs : List Char) :
    Yields (LexicalAt n (Spot 1 cs)) (fun _ => True) (tokenizeLine n cs) := by
  have hpieces : Yields (LexicalAt n (Spot 1 cs)) (fun pieces => Covers 1 cs (pieces.map Piece.stretch))
      (scan n 1 cs) := (scan_yields n 1 cs).of_ok fun _ hrun => scan_covers hrun
  refine hpieces.bind fun pieces hcovers => ?_
  have hspot : ∀ col, (∃ s ∈ pieces.map Piece.stretch, col = s.col) → Spot 1 cs col := by
    rintro col ⟨s, hs, rfl⟩
    exact hcovers.spot s hs
  exact ((joinPieces_yields n pieces).imp (LexicalAt.imp hspot)).bind fun _ _ => trivial

end Lexer

open Lexer

/-! ## Places -/

/-- A place in a source, with the text of its line, at which that has a character other than white space. -/
structure Loc.Points (loc : Loc) (source : String) (cs : List Char) : Prop where
  line : 1 ≤ loc.line ∧ loc.line ≤ (Text.lines source.toList).length
  text : (Text.lines source.toList)[loc.line - 1]? = some cs
  col : 1 ≤ loc.col ∧ loc.col ≤ byteLength cs
  char : ∃ before c after, cs = before ++ c :: after ∧ loc.col = 1 + byteLength before ∧ isWhiteSpace c = false

theorem Lexer.Spot.points {source : String} {i col : Nat} {cs : List Char} (h : Spot 1 cs col)
    (hcs : (Text.lines source.toList)[i]? = some cs) : (⟨i + 1, col⟩ : Loc).Points source cs := by
  obtain ⟨before, c, after, rfl, rfl, hc⟩ := h
  have hi := (List.getElem?_eq_some_iff.1 hcs).1
  refine ⟨⟨Nat.succ_pos i, hi⟩, hcs, ⟨Nat.le_add_right 1 _, ?_⟩, before, c, after, rfl, rfl, hc⟩
  have hpos := byteLength_pos c after
  show 1 + byteLength before ≤ byteLength (before ++ c :: after)
  rw [byteLength_append]
  omega

/-- Tokens are at places in their source. -/
theorem points_of_mem {source : String} {lines : List Line} (h : tokenize source = .ok lines) {line : Line}
    (hline : line ∈ lines) {t : Token} (ht : t ∈ line.tokens) :
    line.number = t.loc.line ∧ ∃ cs, t.loc.Points source cs := by
  obtain ⟨-, i, cs, hcs, hline⟩ := (tokenizeLine_of_tokenize h).2 line hline
  obtain ⟨htokens, hcovers⟩ := tokenizeLine_covers hline
  have hspot := hcovers.spot t.stretch (List.mem_map_of_mem ht)
  have hloc : t.loc = ⟨i + 1, t.loc.col⟩ := by rw [← htokens t ht]
  refine ⟨(number_of_tokenizeLine hline).trans (htokens t ht).symm, cs, ?_⟩
  rw [hloc]
  exact hspot.points hcs

/-- What the tokenizer reports is at a place in the source. -/
theorem tokenize_yields (source : String) :
    Yields (fun d => (∃ e, d.cause = .lexical e) ∧ ∃ loc cs, d.loc = some loc ∧ loc.Points source cs)
      (fun _ => True) (tokenize source) := by
  unfold tokenize
  refine Yields.bind (.mapM (R := fun _ => True) fun (cs, i) hcs => ?_) fun _ _ => trivial
  rw [List.mem_zipIdx_iff_getElem?] at hcs
  refine (tokenizeLine_yields (i + 1) cs).imp ?_
  rintro d ⟨he, col, hcol, hd⟩
  exact ⟨he, _, cs, hd, hcol.points hcs⟩

end Avr

import Avr.Proofs.Layout.Image
import Avr.Proofs.Token.Line

/-!
# Sources put together

* `lines_append`, `exists_of_lines_eq_append` : the lines of two texts with a line feed between them;
* `Line.onLine` : a line moved to another place; `tokenizeLine_onLine` : what the lexer makes of it there;
* `tokenize_append` : the lines of two sources put together;
* `exists_last` : a source whose last line with tokens is cut off.
-/

namespace Avr

/-! ## Lines of a text -/

namespace Text

theorem consLine_ne_nil (c : Char) (ls : List (List Char)) : consLine c ls ≠ [] := by
  cases ls <;> exact List.cons_ne_nil _ _

theorem consLine_append {ls : List (List Char)} (hls : ls ≠ []) (c : Char) (more : List (List Char)) :
    consLine c (ls ++ more) = consLine c ls ++ more := by
  obtain ⟨l, ls, rfl⟩ := List.exists_cons_of_ne_nil hls
  rfl

theorem lines_newline_ne_nil (cs : List Char) : lines (cs ++ ['\n']) ≠ [] := by
  induction cs with
  | nil => exact List.cons_ne_nil _ _
  | cons c cs ih =>
    rw [List.cons_append, lines]
    split
    · exact List.cons_ne_nil _ _
    · split
      · exact ih
      · exact consLine_ne_nil c _

theorem head?_append_newline (cs ds : List Char) : (cs ++ '\n' :: ds).head? = (cs ++ ['\n']).head? := by
  cases cs <;> rfl

/-- A line feed separates the lines in front of it from those behind it. -/
theorem lines_append (cs ds : List Char) : lines (cs ++ '\n' :: ds) = lines (cs ++ ['\n']) ++ lines ds := by
  induction cs with
  | nil => rfl
  | cons c cs ih =>
    rw [List.cons_append, List.cons_append, lines, lines, head?_append_newline, ih]
    split
    · rfl
    · split
      · rfl
      · exact consLine_append (lines_newline_ne_nil cs) c _

/-- A list of lines that is split is that of two texts with a line feed between them. By induction on the text. -/
theorem exists_of_lines_eq_append {cs : List Char} {xs ys : List (List Char)} (hxs : xs ≠ []) (hys : ys ≠ [])
    (h : lines cs = xs ++ ys) :
    ∃ front back, cs = front ++ '\n' :: back ∧ lines (front ++ ['\n']) = xs ∧ lines back = ys := by
  induction cs generalizing xs with
  | nil =>
    rw [lines_nil, eq_comm, List.append_eq_nil_iff] at h
    exact absurd h.1 hxs
  | cons c cs ih =>
    rw [lines] at h
    split at h
    · next hc =>
      obtain ⟨x, xs, rfl⟩ := List.exists_cons_of_ne_nil hxs
      obtain ⟨rfl, hrest⟩ := List.cons.inj h
      by_cases hxs' : xs = []
      · subst hxs'
        exact ⟨[], cs, by rw [hc]; rfl, rfl, hrest⟩
      · obtain ⟨front, back, rfl, hfront, hback⟩ := ih hxs' hrest
        refine ⟨c :: front, back, rfl, ?_, hback⟩
        rw [List.cons_append, lines, if_pos hc, hfront]
    · next hc =>
      split at h
      · next hreturn =>
        obtain ⟨front, back, rfl, hfront, hback⟩ := ih hxs h
        rw [head?_append_newline] at hreturn
        refine ⟨c :: front, back, rfl, ?_, hback⟩
        rw [List.cons_append, lines, if_neg hc, if_pos hreturn, hfront]
      · next hreturn =>
        obtain ⟨x, xs, rfl⟩ := List.exists_cons_of_ne_nil hxs
        cases hcs : lines cs with
        | nil =>
          rw [hcs] at h
          obtain ⟨-, h⟩ := List.cons.inj h
          exact absurd (List.append_eq_nil_iff.1 h.symm).2 hys
        | cons l rest =>
          rw [hcs] at h
          obtain ⟨rfl, rfl⟩ := List.cons.inj h
          obtain ⟨front, back, rfl, hfront, hback⟩ := ih (List.cons_ne_nil l xs) hcs
          rw [head?_append_newline] at hreturn
          refine ⟨c :: front, back, rfl, ?_, hback⟩
          rw [List.cons_append, lines, if_neg hc, if_neg hreturn, hfront]
          rfl

end Text

open Lexer Text

/-! ## Lines at other places -/

def Token.onLine (n : Nat) (t : Token) : Token := { t with loc := { t.loc with line := n } }

def Line.onLine (n : Nat) (line : Line) : Line := ⟨n, line.tokens.map (Token.onLine n)⟩

namespace Lexer

/-- Pieces do not depend on the line that they are cut from. -/
theorem scan_onLine {n col : Nat} {cs : List Char} {pieces : List Piece} (h : scan n col cs = .ok pieces) (m : Nat) :
    scan m col cs = .ok pieces := by
  induction hlength : cs.length using Nat.strongRecOn generalizing col cs pieces with
  | ind length ih =>
    rw [scan] at h ⊢
    split at h
    · next hempty => rwa [if_pos hempty]
    · next hempty =>
      rw [if_neg hempty]
      split at h
      · obtain ⟨rest, hrest, h⟩ := bind_eq_ok.1 h
        refine bind_eq_ok.2 ⟨rest, ih _ ?_ hrest rfl, h⟩
        rw [List.isEmpty_iff] at hempty
        have hpos := List.length_pos_of_ne_nil hempty
        rw [List.length_drop]
        omega
      · cases h

theorem token_onLine {n : Nat} {p : Piece} {t : Token} (h : p.token n = .ok t) (m : Nat) :
    p.token m = .ok (t.onLine m) := by
  unfold Piece.token at h ⊢
  dsimp only at h ⊢
  split at h
  · cases h
    rfl
  · cases h

theorem Settled.onLine {done : List Token} (h : Settled done) (m : Nat) : Settled (done.map (Token.onLine m)) := by
  intro name raw loc earlier heq
  obtain ⟨t, ts, rfl, ht, -⟩ := List.map_eq_cons_iff.1 heq
  obtain ⟨lexeme, raw', loc'⟩ := t
  cases ht
  exact h name raw' loc' ts rfl

theorem addPiece_ref (n : Nat) (name raw : String) (loc : Loc) (earlier : List Token) (p : Piece) :
    addPiece n (⟨.ref name, raw, loc⟩ :: earlier) p =
      if loc.col + raw.utf8ByteSize = p.col ∧ p.continuesName then
        .ok (⟨.ref (name ++ String.ofList p.text), raw ++ String.ofList p.text, loc⟩ :: earlier)
      else (p.token n).map (· :: ⟨.ref name, raw, loc⟩ :: earlier) := rfl

theorem addPiece_onLine {n : Nat} {done done' : List Token} {p : Piece} (h : addPiece n done p = .ok done') (m : Nat) :
    addPiece m (done.map (Token.onLine m)) p = .ok (done'.map (Token.onLine m)) := by
  have hpush (h : (p.token n).map (· :: done) = .ok done') :
      (p.token m).map (· :: done.map (Token.onLine m)) = .ok (done'.map (Token.onLine m)) := by
    obtain ⟨t, ht, rfl⟩ := map_eq_ok.1 h
    exact map_eq_ok.2 ⟨t.onLine m, token_onLine ht m, rfl⟩
  by_cases hsettled : Settled done
  · rw [addPiece_of_settled hsettled] at h
    rw [addPiece_of_settled (hsettled.onLine m)]
    exact hpush h
  · obtain ⟨name, raw, loc, earlier, rfl⟩ : ∃ name raw loc earlier, done = ⟨.ref name, raw, loc⟩ :: earlier := by
      simpa [Settled] using hsettled
    rw [addPiece_ref] at h
    change addPiece m (⟨.ref name, raw, ⟨m, loc.col⟩⟩ :: earlier.map (Token.onLine m)) p = _
    rw [addPiece_ref]
    split at h
    · next hcond =>
      cases h
      exact if_pos hcond
    · next hcond => exact (if_neg hcond).trans (hpush h)

/-- The tokens of a line are the same at another place. -/
theorem tokenizeLine_onLine {n : Nat} {cs : List Char} {line : Line} (h : tokenizeLine n cs = .ok line) (m : Nat) :
    tokenizeLine m cs = .ok (line.onLine m) := by
  have hfold : ∀ (pieces : List Piece) (done done' : List Token), pieces.foldlM (addPiece n) done = .ok done' →
      pieces.foldlM (addPiece m) (done.map (Token.onLine m)) = .ok (done'.map (Token.onLine m)) := by
    intro pieces
    induction pieces with
    | nil =>
      intro done done' h
      cases h
      rfl
    | cons p pieces ih =>
      intro done done' h
      obtain ⟨mid, hmid, h⟩ := foldlM_cons_eq_ok.1 h
      exact foldlM_cons_eq_ok.2 ⟨_, addPiece_onLine hmid m, ih mid done' h⟩
  obtain ⟨pieces, hpieces, h⟩ := bind_eq_ok.1 h
  obtain ⟨tokens, htokens, h⟩ := bind_eq_ok.1 h
  cases h
  obtain ⟨done, hdone, htokens⟩ := bind_eq_ok.1 htokens
  cases htokens
  refine bind_eq_ok.2 ⟨pieces, scan_onLine hpieces m, bind_eq_ok.2 ⟨(done.map (Token.onLine m)).reverse, ?_, ?_⟩⟩
  · exact bind_eq_ok.2 ⟨done.map (Token.onLine m), hfold _ [] done hdone, rfl⟩
  · rw [Line.onLine, List.map_reverse]
    rfl

end Lexer

/-- The line `k` places further down. -/
def Line.below (k : Nat) (line : Line) : Line := line.onLine (line.number + k)

theorem filter_below (k : Nat) (all : List Line) : (all.map (Line.below k)).filter (!·.tokens.isEmpty) =
    (all.filter (!·.tokens.isEmpty)).map (Line.below k) := by
  rw [List.filter_map]
  congr 2
  funext line
  exact congrArg not List.isEmpty_map

theorem tokenizeLine_below {n k : Nat} {cs : List Char} {line : Line} :
    tokenizeLine (n + k) cs = .ok line ↔ ∃ line', tokenizeLine n cs = .ok line' ∧ line = line'.below k := by
  have hbelow {line' : Line} (h : tokenizeLine n cs = .ok line') : tokenizeLine (n + k) cs = .ok (line'.below k) := by
    rw [Line.below, number_of_tokenizeLine h]
    exact tokenizeLine_onLine h (n + k)
  constructor
  · intro h
    have h' := tokenizeLine_onLine h n
    exact ⟨_, h', Except.ok.inj (h.symm.trans (hbelow h'))⟩
  · rintro ⟨line', h', rfl⟩
    exact hbelow h'

theorem forall₂_tokenizeLine_below {ls : List (List Char)} {j k : Nat} {out : List Line} :
    List.Forall₂ (fun p line => tokenizeLine (p.2 + 1) p.1 = .ok line) (ls.zipIdx (j + k)) out ↔
      ∃ out', List.Forall₂ (fun p line => tokenizeLine (p.2 + 1) p.1 = .ok line) (ls.zipIdx j) out' ∧
        out = out'.map (Line.below k) := by
  induction ls generalizing j out with
  | nil => simp
  | cons l ls ih =>
    have hcomm : j + k + 1 = j + 1 + k := by omega
    rw [List.zipIdx_cons, List.zipIdx_cons, List.forall₂_cons_left_iff]
    dsimp only
    rw [hcomm]
    constructor
    · rintro ⟨line, rest, hline, hrest, rfl⟩
      obtain ⟨line', hline', rfl⟩ := tokenizeLine_below.1 hline
      obtain ⟨rest', hrest', rfl⟩ := ih.1 hrest
      exact ⟨line' :: rest', .cons hline' hrest', rfl⟩
    · rintro ⟨out', hout', rfl⟩
      cases hout' with
      | cons hline hrest => exact ⟨_, _, tokenizeLine_below.2 ⟨_, hline, rfl⟩, ih.2 ⟨_, hrest, rfl⟩, rfl⟩

/-- The lines of a source that have tokens are those of its lines that do. -/
theorem tokenize_eq_ok_iff {source : String} {lines : List Line} :
    tokenize source = .ok lines ↔ ∃ all, List.Forall₂ (fun p line => tokenizeLine (p.2 + 1) p.1 = .ok line)
      (Text.lines source.toList).zipIdx all ∧ lines = all.filter (!·.tokens.isEmpty) := by
  rw [tokenize, bind_eq_ok]
  refine exists_congr fun all => ?_
  rw [mapM_eq_ok_iff, pure_eq_ok, eq_comm]

/-- The lines of two sources put together: those of the second one stand below all lines of the first one. -/
theorem tokenize_append {front back : String} {lines : List Line} :
    tokenize (front ++ "\n" ++ back) = .ok lines ↔ ∃ above below, tokenize (front ++ "\n") = .ok above ∧
      tokenize back = .ok below ∧
      lines = above ++ below.map (Line.below (Text.lines (front ++ "\n").toList).length) := by
  have hlines : Text.lines (front ++ "\n" ++ back).toList =
      Text.lines (front ++ "\n").toList ++ Text.lines back.toList := by
    rw [String.toList_append, String.toList_append, List.append_assoc]
    exact lines_append _ _
  simp only [tokenize_eq_ok_iff, hlines, List.zipIdx_append]
  constructor
  · rintro ⟨all, hall, rfl⟩
    obtain ⟨above, below, rfl, habove, hbelow⟩ := forall₂_append_left hall
    obtain ⟨below', hbelow', rfl⟩ := forall₂_tokenizeLine_below.1 hbelow
    exact ⟨_, _, ⟨above, habove, rfl⟩, ⟨below', hbelow', rfl⟩, by rw [List.filter_append, filter_below]⟩
  · rintro ⟨_, _, ⟨above, habove, rfl⟩, ⟨below, hbelow, rfl⟩, rfl⟩
    refine ⟨above ++ below.map (Line.below _), ?_, by rw [List.filter_append, filter_below]⟩
    exact List.rel_append habove (forall₂_tokenizeLine_below.2 ⟨below, hbelow, rfl⟩)

/-- A source with several lines that have tokens can be cut in front of the last of them. -/
theorem exists_last {source : String} {above : List Line} {last : Line} (habove : above ≠ [])
    (h : tokenize source = .ok (above ++ [last])) :
    ∃ front back line, source = front ++ "\n" ++ back ∧ tokenize back = .ok [line] := by
  obtain ⟨all, hall, hfilter⟩ := tokenize_eq_ok_iff.1 h
  obtain ⟨all₁, all₂, rfl, hall₁, hall₂⟩ := List.filter_eq_append_iff.1 hfilter.symm
  have hlength := hall.length_eq
  rw [List.length_zipIdx, List.length_append] at hlength
  have hpos₁ : all₁.length ≠ 0 := fun h0 => habove (by rw [← hall₁, List.length_eq_zero_iff.1 h0, List.filter_nil])
  have hpos₂ : all₂.length ≠ 0 := fun h0 => by
    rw [List.length_eq_zero_iff.1 h0, List.filter_nil] at hall₂
    cases hall₂
  have hcut : lines source.toList = (lines source.toList).take all₁.length ++ (lines source.toList).drop all₁.length :=
    (List.take_append_drop _ _).symm
  have htake : ((lines source.toList).take all₁.length).length = all₁.length := by
    rw [List.length_take]
    omega
  have hne (k : Nat) {ls : List (List Char)} (hk : ls.length = k) (hpos : k ≠ 0) : ls ≠ [] := by
    rintro rfl
    exact hpos hk.symm
  obtain ⟨front, back, hsource, hfront, hback⟩ := exists_of_lines_eq_append (hne _ htake hpos₁)
    (hne all₂.length (by rw [List.length_drop]; omega) hpos₂) hcut
  rw [hcut, List.zipIdx_append, htake] at hall
  obtain ⟨out₁, out₂, hout, hout₁, hout₂⟩ := forall₂_append_left hall
  have hlength₁ := hout₁.length_eq
  rw [List.length_zipIdx, htake] at hlength₁
  obtain ⟨rfl, rfl⟩ := List.append_inj hout hlength₁
  obtain ⟨below, hbelow, rfl⟩ := forall₂_tokenizeLine_below.1 hout₂
  rw [filter_below, List.map_eq_singleton_iff] at hall₂
  obtain ⟨line, hline, -⟩ := hall₂
  refine ⟨String.ofList front, String.ofList back, line, ?_, tokenize_eq_ok_iff.2 ⟨below, ?_, hline.symm⟩⟩
  · rw [← String.toList_inj, hsource, String.toList_append, String.toList_append, List.append_assoc]
    simp only [String.toList_ofList]
    rfl
  · rw [String.toList_ofList, hback]
    exact hbelow

end Avr

import Avr.Proofs.Token.Literal
import Avr.Proofs.Token.Located
import Avr.Proofs.Token.Selection

/-!
# Statements of quoted texts

* `Lexes` : how a line is cut into pieces that go on no name; `tokenizeLine_of_lexes` : each of them is a token;
* `escaped`, `quoted` : a text as it is written between quotes; `closing_escaped` : the quote behind it is the first
  bare one; `firstMatch?_quoted` : it is cut as one piece, whatever stands behind it;
* `firstMatch?_label`, `exists_of_directive` : labels and the words of directives;
* `TextStatement` : a directive and texts with commas, with white space, a label and a comment around them;
* `tokenizeLine_written` : its tokens: the label, the directive and each text, whole.
-/

namespace Avr.Lexer

open Text

/-! ## Lines cut into tokens -/

abbrev Reading := Lexeme × String

def reading (t : Token) : Reading := (t.lexeme, t.raw)

/-- A line is cut into pieces with these readings, none of them a mnemonic or a name, whatever stands between them. -/
inductive Lexes : List Char → List Reading → Prop
  | done : Lexes [] []
  | comment {cs : List Char} : Lexes (';' :: cs) []
  | blank {c : Char} {cs : List Char} {xs : List Reading} (hc : isWhiteSpace c = true) (h : Lexes cs xs) :
      Lexes (c :: cs) xs
  | piece {kind : Kind} {t cs : List Char} {x : Lexeme} {xs : List Reading} (ht : t ≠ [])
      (hcut : firstMatch? (t ++ cs) = some (some kind, t.length)) (hkind : kind ≠ .inst)
      (hread : readLexeme kind t = .ok x) (hx : ∀ name, x ≠ .ref name) (h : Lexes cs xs) :
      Lexes (t ++ cs) ((x, String.ofList t) :: xs)

/-- A piece that has a reading wherever it stands in its line. -/
structure Piece.Settles (p : Piece) (x : Reading) : Prop where
  first : p.kind ≠ .inst
  read : readLexeme p.kind p.text = .ok x.1
  other : ∀ name, x.1 ≠ .ref name
  raw : String.ofList p.text = x.2

theorem Lexes.blanks {gap cs : List Char} {xs : List Reading} (hgap : ∀ c ∈ gap, isWhiteSpace c = true)
    (h : Lexes cs xs) : Lexes (gap ++ cs) xs := by
  induction gap with
  | nil => exact h
  | cons c gap ih =>
    rw [List.forall_mem_cons] at hgap
    exact .blank hgap.1 (ih hgap.2)

/-- A comment goes up to the end of its line, whatever is in it. -/
theorem scan_comment (line col : Nat) (cs : List Char) : scan line col (';' :: cs) = .ok [] := by
  have hcut : firstMatch? (';' :: cs) = some (none, cs.length + 1) := rfl
  rw [scan, if_neg (by simp), hcut]
  dsimp only
  rw [List.drop_succ_cons, List.drop_length, scan_nil]
  rfl

theorem scan_of_lexes {cs : List Char} {xs : List Reading} (h : Lexes cs xs) (line col : Nat) :
    ∃ pieces, scan line col cs = .ok pieces ∧ List.Forall₂ Piece.Settles pieces xs := by
  induction h generalizing col with
  | done => exact ⟨[], scan_nil line col, .nil⟩
  | comment => exact ⟨[], scan_comment line col _, .nil⟩
  | @blank c cs xs hc _ ih =>
    rw [scan_blank hc]
    exact ih _
  | @piece kind t cs x xs ht hcut hkind hread hx _ ih =>
    obtain ⟨pieces, hpieces, hall⟩ := ih (col + byteLength t)
    rw [scan_of_firstMatch? ht hcut, hpieces]
    exact ⟨⟨kind, t, col⟩ :: pieces, rfl, .cons ⟨hkind, hread, hx, rfl⟩ hall⟩

theorem inContext_settled {pieces : List Piece} {xs : List Reading} (h : List.Forall₂ Piece.Settles pieces xs)
    (leadingLabel : Bool) (k : Nat) :
    (pieces.zipIdx k).map (fun (p, place) => p.inContext leadingLabel place) = pieces := by
  induction h generalizing k with
  | nil => rfl
  | cons hp _ ih =>
    rw [List.zipIdx_cons, List.map_cons, ih]
    congr 1
    exact if_neg fun hinst => hp.first hinst.1

/-- Pieces that go on no name are tokens of their own. By induction on the pieces. -/
theorem foldlM_addPiece_settled {pieces : List Piece} {xs : List Reading}
    (h : List.Forall₂ Piece.Settles pieces xs) (line : Nat) {done : List Token} (hdone : Settled done) :
    ∃ tokens : List Token, pieces.foldlM (addPiece line) done = .ok (tokens.reverse ++ done) ∧
      tokens.map reading = xs := by
  induction h generalizing done with
  | nil => exact ⟨[], rfl, rfl⟩
  | @cons p x pieces xs hp _ ih =>
    have htoken : p.token line = .ok ⟨x.1, x.2, ⟨line, p.col⟩⟩ := by
      unfold Piece.token
      rw [hp.read, hp.raw]
    have hfirst : addPiece line done p = .ok (⟨x.1, x.2, ⟨line, p.col⟩⟩ :: done) := by
      rw [addPiece_of_settled hdone, htoken]
      rfl
    have hsettled : Settled (⟨x.1, x.2, ⟨line, p.col⟩⟩ :: done) := by
      intro name raw loc earlier heq
      exact hp.other name (congrArg Token.lexeme (List.cons.inj heq).1)
    obtain ⟨tokens, htokens, hreadings⟩ := ih hsettled
    refine ⟨⟨x.1, x.2, ⟨line, p.col⟩⟩ :: tokens, foldlM_cons_eq_ok.2 ⟨_, hfirst, ?_⟩, ?_⟩
    · rw [htokens, List.reverse_cons, List.append_assoc]
      rfl
    · rw [List.map_cons, hreadings]
      rfl

/-- The tokens of a line are its pieces, in order. -/
theorem tokenizeLine_of_lexes {cs : List Char} {xs : List Reading} (h : Lexes cs xs) (n : Nat) :
    ∃ tokens, tokenizeLine n cs = .ok ⟨n, tokens⟩ ∧ tokens.map reading = xs := by
  obtain ⟨pieces, hpieces, hall⟩ := scan_of_lexes h n 1
  have hempty : Settled [] := by simp [Settled]
  obtain ⟨tokens, htokens, hreadings⟩ := foldlM_addPiece_settled hall n hempty
  have hjoin : joinPieces n pieces = .ok tokens := by
    rw [joinPieces_eq, inContext_settled hall, htokens, List.append_nil]
    show Except.ok tokens.reverse.reverse = _
    rw [List.reverse_reverse]
  exact ⟨tokens, bind_eq_ok.2 ⟨pieces, hpieces, bind_eq_ok.2 ⟨tokens, hjoin, rfl⟩⟩, hreadings⟩

/-! ## Texts between quotes -/

/-- How a character is written between double quotes. -/
def escape : Char → List Char
  | '\\' => ['\\', '\\']
  | '\x22' => ['\\', '\x22']
  | '\n' => ['\\', 'n']
  | '\r' => ['\\', 'r']
  | c => [c]

def escaped (cs : List Char) : List Char := cs.flatMap escape

def quoted (cs : List Char) : List Char := '\x22' :: escaped cs ++ ['\x22']

/-- A character is written as it is, or as a backslash and a character that reads as its code behind one. -/
theorem escape_cases (c : Char) : (escape c = [c] ∧ c ≠ '\\' ∧ c ≠ '\x22') ∨
    ∃ d, escape c = ['\\', d] ∧ unescape? d = some (BitVec.ofNat 8 c.toNat) := by
  unfold escape
  split
  · exact .inr ⟨_, rfl, rfl⟩
  · exact .inr ⟨_, rfl, rfl⟩
  · exact .inr ⟨_, rfl, rfl⟩
  · exact .inr ⟨_, rfl, rfl⟩
  · next hbackslash hquote _ _ => exact .inl ⟨rfl, hbackslash, hquote⟩

theorem escaped_cons (c : Char) (cs : List Char) : escaped (c :: cs) = escape c ++ escaped cs := List.flatMap_cons

/-- The first bare quote is the one behind the text. By induction on the text: no character of it is written with a
bare quote, and none with a bare backslash at its end, which would guard the quote. -/
theorem closing_escaped (cs rest : List Char) :
    closing '\x22' (escaped cs ++ '\x22' :: rest) = some ((escaped cs).length + 1) := by
  induction cs with
  | nil =>
    show closing '\x22' ('\x22' :: rest) = some 1
    rw [closing.eq_def]
    exact if_pos rfl
  | cons c cs ih =>
    rw [escaped_cons, List.append_assoc, List.length_append]
    obtain ⟨hescape, hbackslash, hquote⟩ | ⟨d, hescape, -⟩ := escape_cases c
    · rw [hescape, List.cons_append, List.nil_append, closing.eq_def]
      dsimp only
      rw [if_neg hquote, if_neg hbackslash, ih, List.length_singleton, Nat.add_comm 1]
      rfl
    · rw [hescape, List.cons_append, List.cons_append, List.nil_append, closing.eq_def]
      dsimp only
      rw [if_neg (by decide), if_pos rfl, ih, Nat.add_comm _ (escaped cs).length]
      rfl

/-- A text in quotes is cut as one piece, whatever is in it and whatever stands behind it. -/
theorem firstMatch?_quoted (cs rest : List Char) :
    firstMatch? (quoted cs ++ rest) = some (some .str, (quoted cs).length) := by
  have hstr : str '\x22' (quoted cs ++ rest) = some (quoted cs).length := by
    rw [quoted, List.cons_append, List.cons_append, List.append_assoc, List.cons_append, List.nil_append, str,
      if_pos rfl, closing_escaped, List.length_cons, List.length_append]
    rfl
  refine firstMatch?_eq (k := 9) rfl ?_ hstr
  simp only [patterns, List.take_succ_cons, List.take_zero, List.forall_mem_cons]
  exact ⟨rfl, rfl, rfl, rfl, rfl, rfl, rfl, rfl, rfl, by simp⟩

theorem readLexeme_quoted (cs : List Char) :
    readLexeme .str (quoted cs) = .ok (.str (String.ofList (escaped cs))) := by
  have hbody : (quoted cs).drop 1 = escaped cs ++ ['\x22'] := rfl
  rw [readLexeme, hbody, List.dropLast_concat]

theorem Lexes.quoted {cs rest : List Char} {xs : List Reading} (h : Lexes rest xs) :
    Lexes (Lexer.quoted cs ++ rest) ((.str (String.ofList (escaped cs)), String.ofList (Lexer.quoted cs)) :: xs) :=
  .piece (List.cons_ne_nil _ _) (firstMatch?_quoted cs rest) (by decide) (readLexeme_quoted cs) (by simp) h

/-! ## Commas, labels and directives -/

theorem Lexes.comma {rest : List Char} {xs : List Reading} (h : Lexes rest xs) :
    Lexes (',' :: rest) ((.comma, ",") :: xs) :=
  .piece (t := [',']) (List.cons_ne_nil _ _) (firstMatch?_comma rest) (by decide) rfl (by simp) h

theorem firstMatch?_label {t : List Char} (ht : IsName t) (rest : List Char) :
    firstMatch? (t ++ ':' :: rest) = some (some .label, t.length + 1) := by
  obtain ⟨c, cs, rfl, hc, hcs⟩ := ht
  have hword := (head_classes hc).1
  have hrun : run (fun d => isWordChar d || d == '.') (cs ++ ':' :: rest) = cs.length := by
    refine run_eq (by decide) (fun d hd => ?_) rest
    rw [Bool.or_eq_true, beq_iff_eq]
    exact hcs d hd
  have hlabel : label (c :: (cs ++ ':' :: rest)) = some (cs.length + 2) := by
    unfold label
    dsimp only
    rw [hrun, List.drop_left, hc]
    rfl
  have hsemicolon : c ≠ ';' := by
    rintro rfl
    exact absurd hword (by decide)
  refine firstMatch?_eq (k := 2) rfl ?_ hlabel
  simp only [patterns, List.take_succ_cons, List.take_zero, List.forall_mem_cons]
  exact ⟨comment_eq_none hsemicolon, blanks_eq_none (isWhiteSpace_of_isWordChar hword), by simp⟩

theorem readLexeme_label {t : List Char} (ht : IsName t) :
    readLexeme .label (t ++ [':']) = .ok (.label (String.ofList t)) := by
  have hcolon : ∀ d ∈ t.reverse, ¬ (d == ':') = true := by
    intro d hd
    rw [beq_iff_eq]
    exact (ht.isNameChar d (List.mem_reverse.1 hd)).ne (by decide) (by decide)
  have hkept : t.reverse.dropWhile (· == ':') = t.reverse := by
    cases hreverse : t.reverse with
    | nil => rfl
    | cons d ds => exact List.dropWhile_cons_of_neg (hcolon d (hreverse ▸ List.mem_cons_self))
  rw [readLexeme, List.reverse_concat, List.dropWhile_cons_of_pos (by decide), hkept, List.reverse_reverse]

theorem Lexes.label {t rest : List Char} {xs : List Reading} (ht : IsName t) (h : Lexes rest xs) :
    Lexes (t ++ ':' :: rest) ((.label (String.ofList t), String.ofList (t ++ [':'])) :: xs) := by
  have hsplit : t ++ ':' :: rest = t ++ [':'] ++ rest := by
    rw [List.append_assoc]
    rfl
  have hcut := firstMatch?_label ht rest
  have hlength : t.length + 1 = (t ++ [':']).length := by simp
  rw [hsplit, hlength] at hcut
  rw [hsplit]
  exact .piece (by simp) hcut (by decide) (readLexeme_label ht) (by simp) h

theorem toUpper_cases (c : Char) : c.toUpper = c ∨ c.isAlpha = true ∧ c.toUpper.isAlpha = true := by
  by_cases hlower : c.isLower = true
  · have halpha : c.isAlpha = true := Bool.or_eq_true_iff.2 (.inr hlower)
    have hall := of_ascii (p := fun c => !c.isAlpha || c.toUpper.isAlpha) (by decide +kernel)
      (toNat_lt_of_isAlpha halpha)
    rw [halpha, Bool.not_true, Bool.false_or] at hall
    exact .inr ⟨halpha, hall⟩
  · left
    unfold Char.toUpper
    refine dif_neg fun h => hlower ?_
    show (decide _ && decide _) = true
    rw [Bool.and_eq_true, decide_eq_true_iff, decide_eq_true_iff]
    exact h

theorem exists_of_directive {w : List Char} {d : Directive} (h : Directive.ofText? (String.ofList w) = some d) :
    ∃ body, w = '.' :: body ∧ body ≠ [] ∧ ∀ c ∈ body, c.isAlpha = true := by
  have hname : d.name.toList = w.map Char.toUpper := by
    have hupper := eq_of_beq (List.find?_some (p := fun d : Directive => d.name == upper (String.ofList w)) h)
    rw [hupper, upper, String.toList_ofList, String.toList_ofList]
  have hletters : ∃ letters, d.name.toList = '.' :: letters ∧ letters ≠ [] ∧ ∀ c ∈ letters, c.isAlpha = true := by
    cases d <;> exact ⟨_, rfl, List.cons_ne_nil _ _, List.all_eq_true.1 rfl⟩
  obtain ⟨letters, hsplit, hne, halpha⟩ := hletters
  rw [hname] at hsplit
  obtain ⟨c, body, rfl, hc, rfl⟩ := List.map_eq_cons_iff.1 hsplit
  refine ⟨body, ?_, fun h => hne (by rw [h]; rfl), fun e he => ?_⟩
  · rcases toUpper_cases c with hsame | ⟨-, hletter⟩
    · rw [← hsame, hc]
    · rw [hc] at hletter
      exact absurd hletter (by decide)
  · have hletter := halpha _ (List.mem_map_of_mem he)
    rcases toUpper_cases e with hsame | ⟨hletter, -⟩
    · rwa [hsame] at hletter
    · exact hletter

/-- The word of a directive is cut in front of white space. -/
theorem Lexes.directive {w rest : List Char} {c : Char} {d : Directive} {xs : List Reading}
    (hw : Directive.ofText? (String.ofList w) = some d) (hc : isWhiteSpace c = true) (h : Lexes (c :: rest) xs) :
    Lexes (w ++ c :: rest) ((.dir d, String.ofList w) :: xs) := by
  obtain ⟨body, rfl, hne, halpha⟩ := exists_of_directive hw
  have hrun : run (fun c => !(c == '.' || c == ',' || isWhiteSpace c)) (body ++ c :: rest) = body.length := by
    refine run_eq (by rw [hc, Bool.or_true, Bool.not_true]) (fun e he => ?_) rest
    have hsolid := (isAlpha_classes (halpha e he)).2.1
    rw [hsolid, beq_false_of_ne (ne_of_isAlpha (halpha e he) rfl), beq_false_of_ne (ne_of_isAlpha (halpha e he) rfl)]
    rfl
  have hcut : Lexer.directive ('.' :: (body ++ c :: rest)) = some (body.length + 1) := by
    rw [Lexer.directive, hrun, nonEmpty, if_neg (fun hlength => hne (List.length_eq_zero_iff.1 hlength))]
    rfl
  have hread : readLexeme .dir ('.' :: body) = .ok (.dir d) := by
    rw [readLexeme, hw]
  exact .piece (List.cons_ne_nil _ _) (firstMatch?_directive hcut) (by decide) hread (by simp) h

/-! ## Statements -/

abbrev Blanks := { cs : List Char // ∀ c ∈ cs, isWhiteSpace c = true }

abbrev AsciiText := { cs : List Char // ∀ c ∈ cs, c.toNat < 128 }

structure LabelText where
  name : { t : List Char // IsName t }
  behind : Blanks

structure QuotedText where
  before : Blanks
  text : AsciiText
  behind : Blanks

/-- A directive for texts and the texts that it is for, separated by commas. A label may stand in front of it, and a
comment behind it. -/
structure TextStatement where
  indent : Blanks
  label : Option LabelText
  word : List Char
  dir : Directive
  named : Directive.ofText? (String.ofList word) = some dir
  forTexts : dir = .ascii ∨ dir = .string ∨ dir = .asciz
  first : QuotedText
  /-- Without white space the first text would belong to the word. -/
  spaced : first.before.1 ≠ []
  more : List QuotedText
  comment : Option (List Char)

def LabelText.written (l : LabelText) : List Char := l.name.1 ++ ':' :: l.behind.1

def LabelText.reading (l : LabelText) : Reading :=
  (.label (String.ofList l.name.1), String.ofList (l.name.1 ++ [':']))

namespace QuotedText

def written (q : QuotedText) : List Char := q.before.1 ++ quoted q.text.1 ++ q.behind.1

/-- The reading of a text: what is between the quotes, and all of it. -/
def reading (q : QuotedText) : Reading := (.str (String.ofList (escaped q.text.1)), String.ofList (quoted q.text.1))

end QuotedText

namespace TextStatement

def written (st : TextStatement) : List Char :=
  st.indent.1 ++ ((st.label.toList.flatMap LabelText.written) ++ (st.word ++ (st.first.written ++
    (st.more.flatMap (fun q => ',' :: q.written) ++ st.comment.toList.flatMap (';' :: ·)))))

def readings (st : TextStatement) : List Reading :=
  st.label.toList.map LabelText.reading ++ (.dir st.dir, String.ofList st.word) :: st.first.reading ::
    st.more.flatMap fun q => [(.comma, ","), q.reading]

end TextStatement

theorem lexes_comment (comment : Option (List Char)) : Lexes (comment.toList.flatMap (';' :: ·)) [] := by
  cases comment with
  | none => exact .done
  | some cs =>
    rw [Option.toList_some, List.flatMap_singleton]
    exact .comment

variable {cs : List Char} {xs : List Reading}

theorem QuotedText.lexes (q : QuotedText) (h : Lexes cs xs) : Lexes (q.written ++ cs) (q.reading :: xs) := by
  rw [written, List.append_assoc, List.append_assoc]
  exact (h.blanks q.behind.2).quoted.blanks q.before.2

theorem lexes_more (qs : List QuotedText) (h : Lexes cs []) :
    Lexes (qs.flatMap (fun q => ',' :: q.written) ++ cs) (qs.flatMap fun q => [(.comma, ","), q.reading]) := by
  induction qs with
  | nil => exact h
  | cons q qs ih =>
    rw [List.flatMap_cons, List.flatMap_cons, List.append_assoc]
    exact (q.lexes ih).comma

/-- A statement is cut into its label, its directive, its texts and the commas between them. -/
theorem TextStatement.lexes (st : TextStatement) : Lexes st.written st.readings := by
  have htexts := st.first.lexes (lexes_more st.more (lexes_comment st.comment))
  obtain ⟨c, gap, hgap⟩ := List.exists_cons_of_ne_nil st.spaced
  have hc : isWhiteSpace c = true := st.first.before.2 c (hgap ▸ List.mem_cons_self)
  have hfirst : st.first.written = c :: (gap ++ quoted st.first.text.1 ++ st.first.behind.1) := by
    rw [QuotedText.written, hgap]
    rfl
  rw [hfirst, List.cons_append] at htexts
  have hword := Lexes.directive st.named hc htexts
  rw [← List.cons_append, ← hfirst] at hword
  refine Lexes.blanks st.indent.2 ?_
  rw [readings]
  cases st.label with
  | none => exact hword
  | some l =>
    rw [Option.toList_some, List.flatMap_singleton, LabelText.written, List.append_assoc, List.cons_append]
    exact (hword.blanks l.behind.2).label l.name.2

/-- The tokens of a statement are its label, its directive and its texts with commas between them. Each text is one
token up to its own closing quote, whatever is in the texts and the comment. -/
theorem TextStatement.tokenizeLine_written (st : TextStatement) (n : Nat) :
    ∃ tokens, tokenizeLine n st.written = .ok ⟨n, tokens⟩ ∧ tokens.map reading = st.readings :=
  tokenizeLine_of_lexes st.lexes n

end Avr.Lexer

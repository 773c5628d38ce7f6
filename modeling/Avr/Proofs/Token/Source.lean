import Avr.Proofs.Token.Written

/-!
# Sources of bytes and instructions

* `SourceLine` : the sorts of lines that such a source has, and their text;
* `SourceLine.Says` : the tokens that a line of each sort has; `tokenizeLine_source` : what the lexer makes of it;
* `tokenize_source` : and of a whole source.
-/

namespace Avr

open Lexer Text

inductive SourceLine
  | header (d : Directive)
  | bytes (row : List Byte)
  | entryName
  | entryLabel
  | code (i : Instruction)
  | finish

namespace SourceLine

def text : SourceLine → List Char
  | header .data => ".section .data".toList
  | header _ => ".section .text".toList
  | bytes row => byteLine row
  | entryName => ".global main".toList
  | entryLabel => "main:".toList
  | code i => i.text.toList
  | finish => ".end".toList

/-- A header of one of the two sections, or a line with operands in bounds. -/
def Fine : SourceLine → Prop
  | header d => d = .data ∨ d = .text
  | code i => ∀ op ∈ i.operands, op.Writable
  | _ => True

def Says : SourceLine → Line → Prop
  | header d, line => ∃ t u, line.tokens = [t, u] ∧ t.lexeme = .dir .header ∧ u.lexeme = .dir d
  | bytes row, line => ∃ t args, line.tokens = t :: args ∧ t.lexeme = .dir .byte ∧
    Alternates ByteAs (fun u => u.lexeme = .comma) row args
  | entryName, line => ∃ t u, line.tokens = [t, u] ∧ t.lexeme = .dir .global ∧ u.lexeme = .ref "main"
  | entryLabel, line => ∃ t, line.tokens = [t] ∧ t.lexeme = .label "main"
  | code i, line => ∃ t args, line.tokens = t :: args ∧ t.lexeme = .inst i.mnemonic.name ∧
    Alternates Operand.WrittenAs (fun u => u.lexeme = .comma) i.operands args
  | finish, line => ∃ t, line.tokens = [t] ∧ t.lexeme = .dir .finish

theorem Says.ne_nil {l : SourceLine} {line : Line} (h : l.Says line) : line.tokens ≠ [] := by
  cases l with
  | header d | bytes row | entryName | code i =>
    obtain ⟨t, u, htokens, -⟩ := h
    rw [htokens]
    exact List.cons_ne_nil _ _
  | entryLabel | finish =>
    obtain ⟨t, htokens, -⟩ := h
    rw [htokens]
    exact List.cons_ne_nil _ _

theorem tokenizeLine_pair {head word : List Char} {x y : Lexeme} {kind : Kind} (hhead : IsPiece .dir head)
    (hread : readLexeme .dir head = .ok x) (hx : ∀ name, x ≠ .ref name) (hword : Spells word kind y) (n : Nat) :
    ∃ t u, tokenizeLine n (head ++ ' ' :: word) = .ok ⟨n, [t, u]⟩ ∧ t.lexeme = x ∧ u.lexeme = y := by
  have hwords : ∀ a ∈ [()], Spells ((fun _ => word) a) ((fun _ => kind) a) ((fun _ => y) a) := fun _ _ => hword
  obtain ⟨t, args, hline, ht, hargs⟩ := tokenizeLine_lineText hhead hread nofun hx hwords n
  cases hargs with
  | one hu =>
    rw [lineText, List.map_singleton, List.isEmpty_cons, if_neg Bool.false_ne_true, List.intercalate_singleton] at hline
    exact ⟨t, _, hline, ht, hu.1⟩

theorem tokenizeLine_source {l : SourceLine} (h : l.Fine) (n : Nat) :
    ∃ line, tokenizeLine n l.text = .ok line ∧ l.Says line := by
  cases l with
  | header d =>
    have hsection : IsPiece .dir ".section".toList :=
      isPiece_of_cut rfl (by decide +kernel) (fun _ => rfl) (fun _ => rfl)
    rcases h with rfl | rfl
    · have hdata : IsPiece .dir ".data".toList :=
        isPiece_of_cut rfl (by decide +kernel) (fun _ => rfl) (fun _ => rfl)
      obtain ⟨t, u, hline, ht, hu⟩ := tokenizeLine_pair hsection rfl nofun ⟨hdata, rfl⟩ n
      exact ⟨_, hline, t, u, rfl, ht, hu⟩
    · have htext : IsPiece .dir ".text".toList :=
        isPiece_of_cut rfl (by decide +kernel) (fun _ => rfl) (fun _ => rfl)
      obtain ⟨t, u, hline, ht, hu⟩ := tokenizeLine_pair hsection rfl nofun ⟨htext, rfl⟩ n
      exact ⟨_, hline, t, u, rfl, ht, hu⟩
  | bytes row =>
    obtain ⟨t, args, hline, ht, hargs⟩ := tokenizeLine_bytes row n
    exact ⟨_, hline, t, args, rfl, ht, hargs⟩
  | entryName =>
    have hglobal : IsPiece .dir ".global".toList :=
      isPiece_of_cut rfl (by decide +kernel) (fun _ => rfl) (fun _ => rfl)
    have hmain : Spells "main".toList .inst (.ref "main") :=
      ⟨isPiece_letters (List.all_eq_true.1 rfl) (by decide) (by decide), rfl⟩
    obtain ⟨t, u, hline, ht, hu⟩ := tokenizeLine_pair hglobal rfl nofun hmain n
    exact ⟨_, hline, t, u, rfl, ht, hu⟩
  | entryLabel =>
    have hlabel : IsPiece .label "main:".toList :=
      isPiece_of_cut rfl (by decide +kernel) (fun _ => rfl) (fun _ => rfl)
    have hscan := scan_piece hlabel (.inl rfl) n 1
    rw [List.append_nil, scan_nil] at hscan
    have hjoin : joinPieces n [⟨.label, "main:".toList, 1⟩] = .ok [⟨.label "main", "main:", ⟨n, 1⟩⟩] := rfl
    exact ⟨_, bind_eq_ok.2 ⟨_, hscan, bind_eq_ok.2 ⟨_, hjoin, rfl⟩⟩, _, rfl, rfl⟩
  | code i =>
    obtain ⟨t, args, hline, ht, hargs⟩ := tokenizeLine_instruction h n
    exact ⟨_, hline, t, args, rfl, ht, hargs⟩
  | finish =>
    have hend : IsPiece .dir ".end".toList :=
      isPiece_of_cut rfl (by decide +kernel) (fun _ => rfl) (fun _ => rfl)
    have hnone : ∀ a ∈ ([] : List Unit), Spells ((fun _ => []) a) ((fun _ => Kind.ref) a) ((fun _ => Lexeme.comma) a) :=
      fun _ ha => absurd ha List.not_mem_nil
    have hread : readLexeme .dir ".end".toList = .ok (.dir .finish) := rfl
    obtain ⟨t, args, hline, ht, hargs⟩ := tokenizeLine_lineText hend hread nofun nofun hnone n
    cases hargs
    exact ⟨_, hline, t, rfl, ht⟩

/-! ## Unbroken texts -/

theorem not_mem_intercalate {c : Char} {sep : List Char} (hsep : c ∉ sep) {texts : List (List Char)}
    (h : ∀ t ∈ texts, c ∉ t) : c ∉ sep.intercalate texts := by
  induction texts with
  | nil => exact List.not_mem_nil
  | cons t texts ih =>
    rw [List.forall_mem_cons] at h
    cases texts with
    | nil =>
      rw [List.intercalate_singleton]
      exact h.1
    | cons t' texts =>
      rw [List.intercalate_cons_cons, List.mem_append, List.mem_append]
      rintro ((hmem | hmem) | hmem)
      · exact h.1 hmem
      · exact hsep hmem
      · exact ih h.2 hmem

theorem unbroken_intercalate {sep : List Char} (hsep : Unbroken sep) {texts : List (List Char)}
    (h : ∀ t ∈ texts, Unbroken t) : Unbroken (sep.intercalate texts) :=
  ⟨not_mem_intercalate hsep.1 fun t ht => (h t ht).1, not_mem_intercalate hsep.2 fun t ht => (h t ht).2⟩

theorem unbroken_lineText {head : List Char} {texts : List (List Char)} (hhead : Unbroken head)
    (htexts : ∀ t ∈ texts, Unbroken t) : Unbroken (lineText head texts) := by
  unfold lineText
  split
  · exact hhead
  · obtain ⟨hfeed, hreturn⟩ := unbroken_intercalate (show Unbroken [',', ' '] by decide) htexts
    exact ⟨by simp [hhead.1, hfeed], by simp [hhead.2, hreturn]⟩

theorem unbroken_piece {kind : Kind} {t : List Char} (h : IsPiece kind t) : Unbroken t :=
  ⟨fun hmem => absurd (h.solid _ hmem) (by decide), fun hmem => absurd (h.solid _ hmem) (by decide)⟩

theorem unbroken_text {l : SourceLine} (h : l.Fine) : Unbroken l.text := by
  cases l with
  | header d => rcases h with rfl | rfl <;> decide
  | bytes row =>
    refine unbroken_lineText (by decide) fun t ht => ?_
    obtain ⟨b, -, rfl⟩ := List.mem_map.1 ht
    exact unbroken_piece (spells_byte b).piece
  | code i =>
    change Unbroken i.text.toList
    rw [toList_instruction_text]
    obtain ⟨hletters, h2, h6, -⟩ := name_classes i.mnemonic
    have hname := unbroken_piece (isPiece_letters hletters h2 h6)
    refine unbroken_lineText hname fun t ht => ?_
    obtain ⟨op, hop, rfl⟩ := List.mem_map.1 ht
    exact unbroken_piece (spells_operand (h op hop)).piece
  | entryName | entryLabel | finish => decide

end SourceLine

/-! ## Sources -/

theorem lines_flatMap {ls : List (List Char)} (h : ∀ l ∈ ls, Unbroken l) : lines (ls.flatMap (· ++ ['\n'])) = ls := by
  induction ls with
  | nil => rfl
  | cons l ls ih =>
    rw [List.forall_mem_cons] at h
    rw [List.flatMap_cons, List.append_assoc, List.singleton_append, lines_append_newline h.1, ih h.2]

/-- The lines of a source, as the lexer makes them. -/
theorem tokenize_source {ls : List SourceLine} (h : ∀ l ∈ ls, l.Fine) {source : String}
    (hsource : source.toList = (ls.map SourceLine.text).flatMap (· ++ ['\n'])) :
    ∃ lines, tokenize source = .ok lines ∧ List.Forall₂ SourceLine.Says ls lines := by
  have hgo : ∀ (ls : List SourceLine) (k : Nat), (∀ l ∈ ls, l.Fine) → ∃ all : List Line,
      List.Forall₂ (fun p line => tokenizeLine (p.2 + 1) p.1 = .ok line) ((ls.map SourceLine.text).zipIdx k) all ∧
        List.Forall₂ SourceLine.Says ls all := by
    intro ls
    induction ls with
    | nil => exact fun k _ => ⟨[], .nil, .nil⟩
    | cons l ls ih =>
      intro k hls
      rw [List.forall_mem_cons] at hls
      obtain ⟨line, hline, hsays⟩ := SourceLine.tokenizeLine_source hls.1 (k + 1)
      obtain ⟨all, hall, hsaysAll⟩ := ih (k + 1) hls.2
      refine ⟨line :: all, ?_, .cons hsays hsaysAll⟩
      rw [List.map_cons, List.zipIdx_cons]
      exact .cons hline hall
  obtain ⟨all, hall, hsays⟩ := hgo ls 0 h
  have hlines : lines source.toList = ls.map SourceLine.text := by
    rw [hsource]
    refine lines_flatMap fun t ht => ?_
    obtain ⟨l, hl, rfl⟩ := List.mem_map.1 ht
    exact SourceLine.unbroken_text (h l hl)
  have hfilter : all.filter (!·.tokens.isEmpty) = all := by
    rw [List.filter_eq_self]
    refine forall_of_forall₂_right (fun l line hl => ?_) hsays
    rw [Bool.not_eq_true', List.isEmpty_eq_false_iff]
    exact hl.ne_nil
  refine ⟨all, bind_eq_ok.2 ⟨all, ?_, ?_⟩, hsays⟩
  · rw [hlines, mapM_eq_ok_iff]
    exact hall
  · rw [hfilter]
    rfl

end Avr

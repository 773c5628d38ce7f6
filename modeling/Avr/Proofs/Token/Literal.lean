import Mathlib.Data.Bool.AllAny
import Mathlib.Data.Nat.Digits.Defs
import Avr.Proofs.Token.Joined
import Avr.Proofs.Token.Located

/-!
# Integer literals

* `digitNumber`, `Mark`, `Literal` : integer literals as they are written, and the number that each stands for;
* `integer?_text` : a literal reads as its number if the magnitude of that has 63 bits, and else as nothing;
* `literal_of_cut` : what a pattern of integers cuts in ASCII is a literal;
* `ComesTo` : the tokenizer comes to a piece of a source;
* `tokenize_literal` : there it makes a token of exactly the number, or fails and names the literal;
* `tokenize_literal_least` : the one number in range that cannot be written.
-/

namespace Avr.Lexer

open Text

/-! ## Literals -/

/-- The number of an ASCII digit or letter as a digit, in either case. -/
def digitNumber (c : Char) : Nat := "0123456789abcdef".toList.idxOf c.toLower

/-- What stands in front of the digits of a literal for their radix. -/
inductive Mark
  | lowerX | upperX | dollar | lowerO | upperO | lowerB | upperB | decimal
deriving DecidableEq, Repr

namespace Mark

def text : Mark → List Char
  | lowerX => ['0', 'x']
  | upperX => ['0', 'X']
  | dollar => ['$']
  | lowerO => ['0', 'o']
  | upperO => ['0', 'O']
  | lowerB => ['0', 'b']
  | upperB => ['0', 'B']
  | decimal => []

def base : Mark → Nat
  | lowerX | upperX | dollar => 16
  | lowerO | upperO => 8
  | lowerB | upperB => 2
  | decimal => 10

theorem base_le (m : Mark) : m.base ≤ 16 := by cases m <;> decide

/-- The characters that may stand behind the mark, those of other scripts included. -/
def isDigit : Mark → Char → Bool
  | lowerX | upperX | dollar => isHexDigit
  | lowerO | upperO => isOctalDigit
  | lowerB | upperB => isBinaryDigit
  | decimal => isDecimalDigit

end Mark

/-- An integer literal: possibly a minus sign, a mark of the radix, and at least one digit of it. -/
structure Literal where
  negative : Bool
  mark : Mark
  digits : List Char
  nonempty : digits ≠ []
  valid : ∀ c ∈ digits, digitNumber c < mark.base

namespace Literal

def body (ℓ : Literal) : List Char := ℓ.mark.text ++ ℓ.digits

def text (ℓ : Literal) : List Char := if ℓ.negative then '-' :: ℓ.body else ℓ.body

/-- The number that the digits stand for, the last one with the least weight. -/
def magnitude (ℓ : Literal) : Nat := Nat.ofDigits ℓ.mark.base (ℓ.digits.reverse.map digitNumber)

def value (ℓ : Literal) : Int := if ℓ.negative then -ℓ.magnitude else ℓ.magnitude

def raw (ℓ : Literal) : String := String.ofList ℓ.text

end Literal

/-! ## Reading digits -/

theorem toNat_lt_of_digitNumber {c : Char} (h : digitNumber c < 16) : c.toNat < 128 := by
  have hmem : c.toLower ∈ "0123456789abcdef".toList := List.idxOf_lt_length_iff.1 h
  have hlower : c.toLower.toNat < 128 := by
    have hall : ∀ d ∈ "0123456789abcdef".toList, d.toNat < 128 := List.all_iff_forall_prop.1 (by decide)
    exact hall _ hmem
  unfold Char.toLower at hlower
  split at hlower
  · next hupper =>
    have hle : c.toNat ≤ 90 := UInt32.le_iff_toNat_le.1 hupper.2
    omega
  · exact hlower

theorem digitValue?_of_lt {c : Char} {radix : Nat} (hc : digitNumber c < radix) (hradix : radix ≤ 16) :
    digitValue? radix c = some (digitNumber c) := by
  have h16 : digitNumber c < 16 := Nat.lt_of_lt_of_le hc hradix
  have hall := of_ascii (p := fun c => !decide (digitNumber c < 16) || digitValue? 16 c == some (digitNumber c))
    (by decide +kernel) (toNat_lt_of_digitNumber h16)
  rw [decide_eq_true h16, Bool.not_true, Bool.false_or, beq_iff_eq] at hall
  unfold digitValue? at hall ⊢
  dsimp only at hall ⊢
  rw [Option.filter_eq_some_iff] at hall ⊢
  exact ⟨hall.1, decide_eq_true hc⟩

/-- Digits are read from the left: each moves the number before it up by one place. -/
theorem readDigits?_of_lt {cs : List Char} {radix : Nat} (hcs : ∀ c ∈ cs, digitNumber c < radix) (hradix : radix ≤ 16)
    (acc : Nat) : readDigits? radix acc cs =
      some (acc * radix ^ cs.length + Nat.ofDigits radix (cs.reverse.map digitNumber)) := by
  induction cs generalizing acc with
  | nil => simp [readDigits?]
  | cons c cs ih =>
    rw [List.forall_mem_cons] at hcs
    rw [readDigits?, digitValue?_of_lt hcs.1 hradix, Option.bind_some, ih hcs.2, List.reverse_cons, List.map_append,
      Nat.ofDigits_append, List.map_singleton, Nat.ofDigits_singleton, List.length_map, List.length_reverse,
      List.length_cons]
    congr 1
    ring

theorem radixOf_decimal {ds : List Char} (hds : ∀ c ∈ ds, digitNumber c < 10) : radixOf ds = (10, ds) := by
  have habsurd {c : Char} (hc : ¬ digitNumber c < 10) (hmem : c ∈ ds) : False := hc (hds c hmem)
  unfold radixOf
  split
  · exact (habsurd (c := 'x') (by decide) (by simp)).elim
  · exact (habsurd (c := 'X') (by decide) (by simp)).elim
  · exact (habsurd (c := '$') (by decide) (by simp)).elim
  · exact (habsurd (c := 'o') (by decide) (by simp)).elim
  · exact (habsurd (c := 'O') (by decide) (by simp)).elim
  · exact (habsurd (c := 'b') (by decide) (by simp)).elim
  · exact (habsurd (c := 'B') (by decide) (by simp)).elim
  · rfl

namespace Literal

theorem radixOf_body (ℓ : Literal) : radixOf ℓ.body = (ℓ.mark.base, ℓ.digits) := by
  obtain ⟨negative, mark, digits, hne, hvalid⟩ := ℓ
  cases mark with
  | decimal => exact radixOf_decimal hvalid
  | _ => rfl

theorem body_head (ℓ : Literal) : ℓ.body.head? ≠ some '-' := by
  obtain ⟨negative, mark, digits, hne, hvalid⟩ := ℓ
  cases mark with
  | decimal =>
    obtain ⟨d, ds, rfl⟩ := List.exists_cons_of_ne_nil hne
    rintro h
    cases h
    exact absurd (hvalid '-' List.mem_cons_self) (by decide)
  | _ => nofun

theorem magnitude?_body (ℓ : Literal) :
    magnitude? ℓ.body = if ℓ.magnitude < 2 ^ 63 then some ℓ.magnitude else none := by
  have hread : readNat? ℓ.mark.base ℓ.digits = some ℓ.magnitude := by
    rw [readNat?, if_neg (by rw [List.isEmpty_iff]; exact ℓ.nonempty), readDigits?_of_lt ℓ.valid ℓ.mark.base_le,
      Nat.zero_mul, Nat.zero_add]
    rfl
  have hbound : (0x8000000000000000 : Nat) = 2 ^ 63 := by norm_num
  rw [magnitude?, radixOf_body]
  dsimp only
  rw [hread, hbound, Option.filter_some]
  simp only [decide_eq_true_eq]

/-- A literal reads as its number, unless the magnitude of that takes more than 63 bits. -/
theorem integer?_text (ℓ : Literal) : integer? ℓ.text = if ℓ.magnitude < 2 ^ 63 then some ℓ.value else none := by
  have hpositive : integer? ℓ.body = (magnitude? ℓ.body).map Int.ofNat := by
    have hhead := ℓ.body_head
    unfold integer?
    split
    · next heq => exact absurd (by rw [heq]; rfl) hhead
    · cases magnitude? ℓ.body <;> rfl
  have hnegative : integer? ('-' :: ℓ.body) = (magnitude? ℓ.body).map fun n => -(n : Int) := rfl
  unfold text value
  split
  · rw [hnegative, magnitude?_body]
    split <;> rfl
  · rw [hpositive, magnitude?_body]
    split <;> rfl

theorem magnitude_lt_iff (ℓ : Literal) : ℓ.magnitude < 2 ^ 63 ↔ -2 ^ 63 < ℓ.value ∧ ℓ.value < 2 ^ 63 := by
  unfold value
  split <;> omega

end Literal

/-! ## What the patterns of integers cut -/

def signText (negative : Bool) : List Char := if negative then ['-'] else []

theorem Literal.text_eq (ℓ : Literal) : ℓ.text = signText ℓ.negative ++ (ℓ.mark.text ++ ℓ.digits) := by
  unfold Literal.text signText
  split <;> rfl

theorem exists_signText (cs : List Char) :
    ∃ negative ds, cs = signText negative ++ ds ∧ signLength cs = (signText negative).length := by
  unfold signLength
  split
  · next ds => exact ⟨true, ds, rfl, rfl⟩
  · exact ⟨false, cs, rfl, rfl⟩

theorem digitNumber_of_isHexDigit {c : Char} (h : isHexDigit c = true) : digitNumber c < 16 := by
  have hall := of_ascii (p := fun c => !isHexDigit c || decide (digitNumber c < 16)) (by decide +kernel)
    (toNat_lt_of_isHexDigit h)
  simpa [h] using hall

theorem digitNumber_of_isOctalDigit {c : Char} (h : isOctalDigit c = true) : digitNumber c < 8 := by
  have hascii : c.toNat < 128 := by
    simp only [isOctalDigit, Bool.and_eq_true, decide_eq_true_iff] at h
    exact Nat.lt_of_le_of_lt (UInt32.le_iff_toNat_le.1 (Char.le_def.1 h.2)) (by decide)
  have hall := of_ascii (p := fun c => !isOctalDigit c || decide (digitNumber c < 8)) (by decide +kernel) hascii
  simpa [h] using hall

theorem digitNumber_of_isBinaryDigit {c : Char} (h : isBinaryDigit c = true) : digitNumber c < 2 := by
  simp only [isBinaryDigit, Bool.or_eq_true, beq_iff_eq] at h
  rcases h with rfl | rfl <;> decide

theorem digitNumber_of_isDecimalDigit {c : Char} (h : isDecimalDigit c = true) (hascii : c.toNat < 128) :
    digitNumber c < 10 := by
  have hall := of_ascii (p := fun c => !isDecimalDigit c || decide (digitNumber c < 10)) (by decide +kernel) hascii
  simpa [h] using hall

/-- A mark of a radix is read with the digits that may follow it. -/
theorem exists_mark {cs : List Char} {n : Nat} {isDigit : Char → Bool} (h : radixMark? cs = some (n, isDigit)) :
    ∃ (mark : Mark) (ds : List Char), mark ≠ .decimal ∧ cs = mark.text ++ ds ∧ n = mark.text.length ∧
      isDigit = mark.isDigit := by
  unfold radixMark? at h
  split at h
  · cases h
    exact ⟨.lowerX, _, nofun, rfl, rfl, rfl⟩
  · cases h
    exact ⟨.upperX, _, nofun, rfl, rfl, rfl⟩
  · cases h
    exact ⟨.dollar, _, nofun, rfl, rfl, rfl⟩
  · cases h
    exact ⟨.lowerO, _, nofun, rfl, rfl, rfl⟩
  · cases h
    exact ⟨.upperO, _, nofun, rfl, rfl, rfl⟩
  · cases h
    exact ⟨.lowerB, _, nofun, rfl, rfl, rfl⟩
  · cases h
    exact ⟨.upperB, _, nofun, rfl, rfl, rfl⟩
  · cases h

theorem digitNumber_of_isDigit {mark : Mark} (hmark : mark ≠ .decimal) {c : Char} (h : mark.isDigit c = true) :
    digitNumber c < mark.base := by
  cases mark with
  | lowerX | upperX | dollar => exact digitNumber_of_isHexDigit h
  | lowerO | upperO => exact digitNumber_of_isOctalDigit h
  | lowerB | upperB => exact digitNumber_of_isBinaryDigit h
  | decimal => exact absurd rfl hmark

theorem take_run (p : Char → Bool) (cs : List Char) : cs.take (run p cs) = cs.takeWhile p :=
  (List.prefix_iff_eq_take.1 (List.takeWhile_prefix p)).symm

/-- A sign, a mark and the run of digits behind them are a literal. -/
theorem exists_literal (negative : Bool) (mark : Mark) {ds : List Char} {p : Char → Bool} (hrun : run p ds ≠ 0)
    (hds : ∀ c ∈ ds.take (run p ds), digitNumber c < mark.base) : ∃ ℓ : Literal, ℓ.text =
      (signText negative ++ (mark.text ++ ds)).take ((signText negative).length + mark.text.length + run p ds) := by
  have hne : ds.take (run p ds) ≠ [] := by
    rw [take_run]
    intro h
    exact hrun (by rw [run, h, List.length_nil])
  refine ⟨⟨negative, mark, ds.take (run p ds), hne, hds⟩, ?_⟩
  rw [Literal.text_eq, Nat.add_assoc, List.take_length_add_append, List.take_length_add_append]

/-- What a pattern of integers cuts is a literal, if its digits are ASCII. -/
theorem literal_of_cut {text : List Char} (hcut : Cut .int text) (hascii : ∀ c ∈ text, c.toNat < 128) :
    ∃ ℓ : Literal, ℓ.text = text := by
  obtain ⟨pattern, cs, n, hmem, hpattern, rfl⟩ := hcut
  obtain ⟨negative, rest, rfl, hsign⟩ := exists_signText cs
  obtain rfl | rfl : pattern = markedInteger ∨ pattern = decimalInteger := by simpa [patterns] using hmem
  · unfold markedInteger at hpattern
    dsimp only at hpattern
    rw [hsign, List.drop_left] at hpattern
    split at hpattern
    · next m isDigit hmark =>
      obtain ⟨mark, ds, hne, rfl, rfl, rfl⟩ := exists_mark hmark
      rw [← List.drop_drop, List.drop_left, List.drop_left] at hpattern
      split at hpattern
      · cases hpattern
      · next hrun =>
        obtain rfl := word_eq_some hpattern
        refine exists_literal negative mark hrun fun c hc => ?_
        rw [take_run] at hc
        exact digitNumber_of_isDigit hne (List.all_eq_true.1 List.all_takeWhile c hc)
    · cases hpattern
  · unfold decimalInteger at hpattern
    dsimp only at hpattern
    rw [hsign, List.drop_left] at hpattern
    split at hpattern
    · cases hpattern
    · next hrun =>
      obtain rfl := word_eq_some hpattern
      rw [List.take_length_add_append] at hascii
      refine exists_literal negative .decimal hrun fun c hc => ?_
      have hc' := hascii c (List.mem_append_right _ hc)
      rw [take_run] at hc
      exact digitNumber_of_isDecimalDigit (List.all_eq_true.1 List.all_takeWhile c hc) hc'

/-! ## The token of a literal -/

namespace Literal

def token (ℓ : Literal) (loc : Loc) : Token := ⟨.int ℓ.value, ℓ.raw, loc⟩

/-- A literal becomes the token of its number, unless the magnitude of that takes more than 63 bits. -/
theorem piece_token {ℓ : Literal} {p : Piece} (hkind : p.kind = .int) (htext : p.text = ℓ.text) (line : Nat) :
    p.token line = if ℓ.magnitude < 2 ^ 63 then .ok (ℓ.token ⟨line, p.col⟩)
      else .error (.located ⟨line, p.col⟩ (.lexical (.malformedInteger ℓ.raw))) := by
  unfold Piece.token readLexeme
  rw [hkind, htext]
  dsimp only
  rw [integer?_text]
  by_cases hsmall : ℓ.magnitude < 2 ^ 63
  · rw [if_pos hsmall, if_pos hsmall]
    rfl
  · rw [if_neg hsmall, if_neg hsmall]
    rfl

end Literal

/-! ## A literal in its line -/

/-- A piece goes on the name that ends where the piece begins. -/
def Piece.GoesOn (p : Piece) (done : List Token) : Prop :=
  ∃ t, done.getLast? = some t ∧ t.kind = .ref ∧ t.endCol = p.col ∧ p.continuesName = true

theorem addPiece_alone {done : List Token} {p : Piece} (h : ¬ p.GoesOn done) (line : Nat) :
    addPiece line done.reverse p = (p.token line).map (· :: done.reverse) := by
  unfold addPiece
  split
  · next name raw loc earlier heq =>
    rw [if_neg]
    rintro ⟨hend, hcontinues⟩
    refine h ⟨⟨.ref name, raw, loc⟩, ?_, rfl, hend, hcontinues⟩
    rw [← List.head?_reverse, heq]
    rfl
  · rfl

/-- A piece that goes on a name lengthens it. -/
theorem addPiece_onto {done : List Token} {p : Piece} (h : p.GoesOn done) (line : Nat) :
    ∃ t name, done.getLast? = some t ∧ t.lexeme = .ref name ∧ addPiece line done.reverse p =
      .ok (⟨.ref (name ++ String.ofList p.text), t.raw ++ String.ofList p.text, t.loc⟩ :: done.dropLast.reverse) := by
  obtain ⟨⟨lexeme, raw, loc⟩, hlast, hkind, hend, hcontinues⟩ := h
  obtain ⟨earlier, rfl⟩ := List.getLast?_eq_some_iff.1 hlast
  cases lexeme with
  | ref name =>
    refine ⟨_, name, hlast, rfl, ?_⟩
    rw [List.reverse_append, List.dropLast_concat]
    exact if_pos ⟨hend, hcontinues⟩
  | select half => cases half <;> cases hkind
  | ptr q mode => cases mode <;> cases hkind
  | _ => cases hkind

theorem joinPieces_eq (line : Nat) (pieces : List Piece) : joinPieces line pieces =
    ((pieces.zipIdx.map fun q : Piece × Nat => q.1.inContext (pieces.head?.any fun r => r.kind == .label) q.2).foldlM
      (addPiece line) []).map List.reverse := by
  unfold joinPieces
  dsimp only [bind, Except.bind]
  generalize List.foldlM (addPiece line) [] _ = rest
  cases rest <;> rfl

/-- The pieces of a line are joined from the left: those in front first, then the next one, then the rest. -/
theorem joinPieces_next {line : Nat} {before : List Piece} {done : List Token} {p : Piece}
    (hbefore : joinPieces line before = .ok done) (hkind : p.kind ≠ .inst) (after : List Piece) :
    ∃ placed : List Piece, placed.length = after.length ∧ joinPieces line (before ++ p :: after) =
      (addPiece line done.reverse p >>= fun next => placed.foldlM (addPiece line) next).map List.reverse := by
  rw [joinPieces_eq] at hbefore
  obtain ⟨out, hout, rfl⟩ := map_eq_ok.1 hbefore
  have hplace (leadingLabel : Bool) (place : Nat) : p.inContext leadingLabel place = p := by
    unfold Piece.inContext
    rw [if_neg fun h => hkind h.1]
  -- whether the line begins with a label is known from the first piece, and so from those in front
  have hfront : (before.zipIdx.map fun (q : Piece × Nat) => q.1.inContext
      ((before ++ p :: after).head?.any fun q => q.kind == .label) q.2).foldlM (addPiece line) [] = .ok out := by
    cases before with
    | nil => exact hout
    | cons q before => exact hout
  refine ⟨(after.zipIdx (before.length + 1)).map fun (q : Piece × Nat) => q.1.inContext
    ((before ++ p :: after).head?.any fun q => q.kind == .label) q.2, by simp, ?_⟩
  rw [joinPieces_eq, List.zipIdx_append, List.map_append, List.foldlM_append, hfront, List.reverse_reverse,
    List.zipIdx_cons, List.map_cons, hplace, Nat.zero_add]
  rfl

/-- The tokens of the pieces up to the next one. -/
theorem joinPieces_concat {line : Nat} {before : List Piece} {done : List Token} {p : Piece}
    (hbefore : joinPieces line before = .ok done) (hkind : p.kind ≠ .inst) :
    joinPieces line (before ++ [p]) = (addPiece line done.reverse p).map List.reverse := by
  obtain ⟨placed, hlength, hjoin⟩ := joinPieces_next hbefore hkind []
  obtain rfl : placed = [] := List.length_eq_zero_iff.1 hlength
  rw [hjoin]
  cases addPiece line done.reverse p <;> rfl

/-- A token that is no name stays, whatever pieces follow. -/
theorem mem_foldlM_addPiece {line : Nat} {ps : List Piece} {done out : List Token} {t : Token}
    (h : ps.foldlM (addPiece line) done = .ok out) (ht : t ∈ done) (hkind : t.kind ≠ .ref) : t ∈ out := by
  induction ps generalizing done with
  | nil =>
    cases h
    exact ht
  | cons p ps ih =>
    obtain ⟨next, hnext, h⟩ := foldlM_cons_eq_ok.1 h
    apply ih h
    have hpush {out : List Token} (h : (p.token line).map (· :: done) = .ok out) : t ∈ out := by
      obtain ⟨u, -, rfl⟩ := map_eq_ok.1 h
      exact List.mem_cons_of_mem u ht
    unfold addPiece at hnext
    split at hnext
    · next name raw loc earlier =>
      split at hnext
      · cases hnext
        rcases List.mem_cons.1 ht with rfl | ht
        · exact absurd rfl hkind
        · exact List.mem_cons_of_mem _ ht
      · exact hpush hnext
    · exact hpush hnext

/-! ## A literal in its source -/

/-- The tokenizer comes to a piece of a source: no line above the one with index `i` fails, that line is cut, and the
pieces in front of the piece give the tokens `done`. -/
structure ComesTo (source : String) (i : Nat) (before : List Piece) (done : List Token) (p : Piece) : Prop where
  above : ∀ j < i, ∀ cs, (Text.lines source.toList)[j]? = some cs → ∃ line, tokenizeLine (j + 1) cs = .ok line
  cut : ∃ cs after, (Text.lines source.toList)[i]? = some cs ∧ scan (i + 1) 1 cs = .ok (before ++ p :: after)
  joined : joinPieces (i + 1) before = .ok done

theorem ComesTo.tokenizeLine {source : String} {i : Nat} {before : List Piece} {done : List Token} {p : Piece}
    (h : ComesTo source i before done p) (hkind : p.kind ≠ .inst) :
    ∃ cs placed, (Text.lines source.toList)[i]? = some cs ∧ tokenizeLine (i + 1) cs =
      (addPiece (i + 1) done.reverse p >>= fun next => List.foldlM (addPiece (i + 1)) next placed).map
        fun out => ⟨i + 1, out.reverse⟩ := by
  obtain ⟨cs, after, hcs, hscan⟩ := h.cut
  obtain ⟨placed, -, hjoin⟩ := joinPieces_next h.joined hkind after
  refine ⟨cs, placed, hcs, ?_⟩
  rw [Lexer.tokenizeLine, hscan]
  dsimp only [bind, Except.bind]
  rw [hjoin]
  dsimp only [bind, Except.bind]
  cases addPiece (i + 1) done.reverse p with
  | error e => rfl
  | ok next =>
    dsimp only
    generalize List.foldlM (addPiece (i + 1)) next placed = rest
    cases rest <;> rfl

/-- If the piece that the tokenizer comes to is wrong, that is what it reports. -/
theorem ComesTo.tokenize_error {source : String} {i : Nat} {before : List Piece} {done : List Token} {p : Piece}
    (h : ComesTo source i before done p) (hkind : p.kind ≠ .inst) {d : Diagnostic}
    (hp : addPiece (i + 1) done.reverse p = .error d) : tokenize source = .error d := by
  obtain ⟨cs, placed, hcs, hline⟩ := h.tokenizeLine hkind
  have herror : Lexer.tokenizeLine (i + 1) cs = .error d := by
    rw [hline, hp]
    rfl
  obtain ⟨hi, hget⟩ := List.getElem?_eq_some_iff.1 hcs
  have hsplit : Text.lines source.toList =
      (Text.lines source.toList).take i ++ cs :: (Text.lines source.toList).drop (i + 1) := by
    rw [← hget, List.getElem_cons_drop, List.take_append_drop]
  have hlength : ((Text.lines source.toList).take i).length = i := by
    rw [List.length_take]
    omega
  unfold tokenize
  rw [hsplit, List.zipIdx_append, List.zipIdx_cons, hlength, Nat.zero_add,
    mapM_append_eq_error (a := (cs, i)) ?_ herror]
  · rfl
  · rintro ⟨ds, j⟩ hmem
    rw [List.mem_zipIdx_iff_getElem?, List.getElem?_take] at hmem
    split at hmem
    · next hj => exact h.above j hj ds hmem
    · cases hmem

/-- Integer literals stand for their numbers. What the tokenizer comes to and cuts as an integer, in ASCII, is a
literal. Its token has exactly the value of the literal if the magnitude of that has 63 bits, and if not, tokenizing
fails and names the literal. A literal without a sign right behind a name goes on the name instead. -/
theorem tokenize_literal {source : String} {i : Nat} {before : List Piece} {done : List Token} {p : Piece}
    (h : ComesTo source i before done p) (hkind : p.kind = .int) (hascii : ∀ c ∈ p.text, c.toNat < 128) :
    (∃ ℓ : Literal, ℓ.text = p.text) ∧ ∀ ℓ : Literal, ℓ.text = p.text →
      (¬ p.GoesOn done → -2 ^ 63 < ℓ.value → ℓ.value < 2 ^ 63 →
        joinPieces (i + 1) (before ++ [p]) = .ok (done ++ [ℓ.token ⟨i + 1, p.col⟩]) ∧
        ∀ lines, tokenize source = .ok lines →
          ∃ line ∈ lines, line.number = i + 1 ∧ ℓ.token ⟨i + 1, p.col⟩ ∈ line.tokens) ∧
      (¬ p.GoesOn done → ℓ.value ≤ -2 ^ 63 ∨ 2 ^ 63 ≤ ℓ.value →
        tokenize source = .error (.located ⟨i + 1, p.col⟩ (.lexical (.malformedInteger ℓ.raw)))) ∧
      (p.GoesOn done → ∃ t name, done.getLast? = some t ∧ t.lexeme = .ref name ∧ joinPieces (i + 1) (before ++ [p]) =
        .ok (done.dropLast ++ [⟨.ref (name ++ ℓ.raw), t.raw ++ ℓ.raw, t.loc⟩])) := by
  have hinst : p.kind ≠ .inst := by
    rw [hkind]
    exact nofun
  obtain ⟨_, after, -, hscan⟩ := h.cut
  refine ⟨literal_of_cut (hkind ▸ scan_cut hscan p (by simp)) hascii, fun ℓ htext => ?_⟩
  have htoken := Literal.piece_token hkind htext.symm (i + 1)
  have hraw : String.ofList p.text = ℓ.raw := by rw [← htext, Literal.raw]
  refine ⟨fun halone hlow hhigh => ?_, fun halone hout => ?_, fun hon => ?_⟩
  · rw [if_pos (ℓ.magnitude_lt_iff.2 ⟨hlow, hhigh⟩)] at htoken
    have hadd : addPiece (i + 1) done.reverse p = .ok (ℓ.token ⟨i + 1, p.col⟩ :: done.reverse) := by
      rw [addPiece_alone halone, htoken, Except.map]
    refine ⟨?_, fun lines hlines => ?_⟩
    · rw [joinPieces_concat h.joined hinst, hadd, Except.map, List.reverse_cons, List.reverse_reverse]
    · obtain ⟨cs, placed, hcs, hline⟩ := h.tokenizeLine hinst
      obtain ⟨line, hline', hkept⟩ := (tokenizeLine_of_tokenize hlines).1 i cs hcs
      rw [hline, hadd] at hline'
      obtain ⟨out, hrest, rfl⟩ := map_eq_ok.1 hline'
      have hmem : ℓ.token ⟨i + 1, p.col⟩ ∈ out.reverse :=
        List.mem_reverse.2 (mem_foldlM_addPiece hrest List.mem_cons_self nofun)
      exact ⟨_, hkept (List.ne_nil_of_mem hmem), rfl, hmem⟩
  · have hlarge : ¬ ℓ.magnitude < 2 ^ 63 := by
      rw [ℓ.magnitude_lt_iff]
      omega
    rw [if_neg hlarge] at htoken
    apply h.tokenize_error hinst
    rw [addPiece_alone halone, htoken, Except.map]
  · obtain ⟨t, name, hlast, hname, hadd⟩ := addPiece_onto hon (i + 1)
    refine ⟨t, name, hlast, hname, ?_⟩
    rw [joinPieces_concat h.joined hinst, hadd, hraw, Except.map, List.reverse_cons, List.reverse_reverse]

/-- The literals of the largest magnitude that have a token: behind an instruction on the line above, in capital
hexadecimal digits and with a sign. -/
theorem tokenize_literal_largest : ∃ ℓ : Literal, ℓ.text = "-0x7FFFFFFFFFFFFFFF".toList ∧ ℓ.value = -(2 ^ 63 - 1) ∧
    joinPieces 2 [⟨.dir, ".byte".toList, 1⟩, ⟨.int, ℓ.text, 7⟩] =
      .ok [⟨.dir .byte, ".byte", ⟨2, 1⟩⟩, ⟨.int (-(2 ^ 63 - 1)), "-0x7FFFFFFFFFFFFFFF", ⟨2, 7⟩⟩] := by
  let ℓ : Literal := ⟨true, .lowerX, "7FFFFFFFFFFFFFFF".toList, by decide, List.all_iff_forall_prop.1 (by decide)⟩
  have hvalue : ℓ.value = -(2 ^ 63 - 1) := by decide +kernel
  have hcomes : ComesTo "NOP\n.byte -0x7FFFFFFFFFFFFFFF" 1 [⟨.dir, ".byte".toList, 1⟩]
      [⟨.dir .byte, ".byte", ⟨2, 1⟩⟩] ⟨.int, ℓ.text, 7⟩ := by
    refine ⟨fun j hj cs hcs => ?_, ⟨".byte -0x7FFFFFFFFFFFFFFF".toList, [], by decide +kernel, by decide +kernel⟩,
      by decide +kernel⟩
    obtain rfl : j = 0 := by omega
    have hcs' : cs = "NOP".toList := by
      have hfirst : (Text.lines "NOP\n.byte -0x7FFFFFFFFFFFFFFF".toList)[0]? = some "NOP".toList := by decide +kernel
      exact Option.some.inj (hcs.symm.trans hfirst)
    subst hcs'
    exact ⟨⟨1, [⟨.inst "NOP", "NOP", ⟨1, 1⟩⟩]⟩, by decide +kernel⟩
  have halone : ¬ Piece.GoesOn ⟨.int, ℓ.text, 7⟩ [⟨.dir .byte, ".byte", ⟨2, 1⟩⟩] := by
    rintro ⟨t, ht, hkind, -⟩
    cases ht
    cases hkind
  have hascii : ∀ c ∈ ℓ.text, c.toNat < 128 := List.all_iff_forall_prop.1 (by decide +kernel)
  obtain ⟨hjoined, -⟩ := ((tokenize_literal hcomes rfl hascii).2 ℓ rfl).1 halone (by rw [hvalue]; decide)
    (by rw [hvalue]; decide)
  refine ⟨ℓ, by decide +kernel, hvalue, ?_⟩
  rw [← hvalue]
  exact hjoined

/-- The least 64-bit signed integer cannot be written: its literal is called malformed, though its value is in range. -/
theorem tokenize_literal_least : ∃ ℓ : Literal, ℓ.text = "-9223372036854775808".toList ∧ ℓ.value = -2 ^ 63 ∧
    ComesTo ".byte -9223372036854775808" 0 [⟨.dir, ".byte".toList, 1⟩] [⟨.dir .byte, ".byte", ⟨1, 1⟩⟩]
      ⟨.int, ℓ.text, 7⟩ ∧
    tokenize ".byte -9223372036854775808" =
      .error (.located ⟨1, 7⟩ (.lexical (.malformedInteger "-9223372036854775808"))) := by
  refine ⟨⟨true, .decimal, "9223372036854775808".toList, by decide, List.all_iff_forall_prop.1 (by decide)⟩,
    by decide +kernel, by decide +kernel, ⟨nofun, ⟨".byte -9223372036854775808".toList, [], by decide +kernel, by decide +kernel⟩,
      by decide +kernel⟩, by decide +kernel⟩

end Avr.Lexer

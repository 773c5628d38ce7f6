import Avr.Proofs.Opcode.Operands
import Avr.Proofs.Token.Line
import Avr.Text.Hex

/-!
# Instructions and bytes as they are written

* `Operand.Writable` : an operand in the bounds of its written form; `writable_of_admitted` : admitted ones are;
* `Operand.written` : the meaning of the token that the written form gives; `spells_operand` : it gives that token;
* `tokenizeLine_instruction` : the tokens of the written form of an instruction;
* `tokenizeLine_bytes` : those of a line of bytes.
-/

namespace Avr

open Catalog Lexer Text

/-! ## Operands in bounds -/

/-- An operand whose written form is read as one token. -/
def Operand.Writable : Operand → Prop
  | reg n => n < registerCount
  | imm v => -0x80000000 ≤ v ∧ v ≤ 0x80000000
  | ptr p (.disp q) => p ≠ .X ∧ q < 100
  | _ => True

def Catalog.ArgSpec.bounded (s : ArgSpec) : Bool :=
  s.kinds.all fun
    | .reg => s.constraint.within 0 31
    | .int => s.constraint.within (-0x80000000) 0x80000000
    | .wordPlusQ => s.constraint.within 0 63
    | _ => true

theorem bounded_args (m : Mnemonic) : m.entry.args.all ArgSpec.bounded = true := by
  have hall : Mnemonic.all.all (fun m => m.entry.args.all ArgSpec.bounded) = true := by decide +kernel
  exact List.all_eq_true.1 hall m (Mnemonic.mem_all m)

theorem writable_of_admits {s : ArgSpec} {op : Operand} (hs : s.bounded = true) (h : s.Admits op) : op.Writable := by
  have hkind := List.all_eq_true.1 hs op.kind h.kind_mem
  cases op with
  | reg n =>
    have hbounds := Constraint.bounds_of_within hkind (h.admitsValue rfl)
    change n < 32
    omega
  | imm v => exact Constraint.bounds_of_within hkind (h.admitsValue rfl)
  | ptr p mode =>
    cases mode with
    | disp q =>
      have hbounds := Constraint.bounds_of_within hkind (h.admitsValue rfl)
      refine ⟨?_, by omega⟩
      rintro rfl
      exact h.letter q rfl
    | _ => trivial
  | func f => trivial

/-- Admitted operands are in bounds. -/
theorem writable_of_admitted {m : Mnemonic} {ops : List Operand} (h : Admitted m ops) : ∀ op ∈ ops, op.Writable := by
  have hbounded := List.all_eq_true.1 (bounded_args m)
  unfold Admitted at h
  generalize m.entry.args = args at hbounded h
  revert hbounded
  induction h with
  | nil => simp
  | cons hhead _ ih =>
    intro hbounded
    rw [List.forall_mem_cons] at hbounded
    exact List.forall_mem_cons.2 ⟨writable_of_admits hbounded.1 hhead, ih hbounded.2⟩

/-! ## The tokens of operands -/

def Operand.writtenKind : Operand → Kind
  | reg _ => .reg
  | imm _ => .int
  | ptr _ .plain => .word
  | ptr _ .postInc => .wordPlus
  | ptr _ .preDec => .minusWord
  | ptr _ (.disp _) => .wordPlusQ
  | func _ => .inst

/-- The meaning of the token that the written form gives, before names are replaced. -/
def Operand.written : Operand → Lexeme
  | reg n => .reg n
  | imm v => .int v
  | ptr p m => .ptr p m
  | func f => .ref f.name

theorem exists_digits (n : Nat) : ∃ d ds, Nat.toDigits 10 n = d :: ds ∧ ∀ c ∈ d :: ds, c.isDigit = true := by
  cases hdigits : Nat.toDigits 10 n with
  | nil => exact absurd hdigits Nat.toDigits_ne_nil
  | cons d ds =>
    refine ⟨d, ds, rfl, fun c hc => ?_⟩
    rw [← hdigits] at hc
    exact isDigit_of_mem hc

theorem radixOf_digits {d : Char} {ds : List Char} (hds : ∀ c ∈ d :: ds, c.isDigit = true) :
    radixOf (d :: ds) = (10, d :: ds) := by
  have hne : ∀ {c : Char}, c ∈ d :: ds → ∀ e : Char, e.isDigit = false → c ≠ e :=
    fun hc e he => ne_of_isDigit (hds _ hc) he
  unfold radixOf
  split
  all_goals first
    | rfl
    | next heq =>
      obtain ⟨rfl, rfl⟩ := List.cons.inj heq
      first
      | exact absurd rfl (hne (List.mem_cons_of_mem _ List.mem_cons_self) _ (by decide))
      | exact absurd rfl (hne List.mem_cons_self _ (by decide))

theorem magnitude?_toDigits {n : Nat} (hn : n < 0x8000000000000000) : magnitude? (Nat.toDigits 10 n) = some n := by
  obtain ⟨d, ds, hdigits, hall⟩ := exists_digits n
  unfold magnitude?
  rw [hdigits, radixOf_digits hall, ← hdigits]
  dsimp only
  rw [readNat?_toDigits, Option.filter_some, decide_eq_true hn, if_pos rfl]

theorem spells_nat {n : Nat} (hn : n < 0x8000000000000000) : Spells (Nat.toDigits 10 n) .int (.int n) := by
  have hmagnitude := magnitude?_toDigits hn
  obtain ⟨d, ds, hdigits, hall⟩ := exists_digits n
  rw [hdigits] at hmagnitude ⊢
  refine ⟨isPiece_decimal hall, ?_⟩
  have hinteger : integer? (d :: ds) = some (n : Int) := by
    unfold integer?
    split
    · next heq => exact absurd (List.cons.inj heq).1 (ne_of_isDigit (hall d List.mem_cons_self) (by decide))
    · rw [hmagnitude]
      rfl
  rw [if_neg nofun]
  unfold readLexeme
  dsimp only
  rw [hinteger]

theorem spells_negative {n : Nat} (hn : n < 0x8000000000000000) :
    Spells ('-' :: Nat.toDigits 10 n) .int (.int (-(n : Int))) := by
  have hmagnitude := magnitude?_toDigits hn
  obtain ⟨d, ds, hdigits, hall⟩ := exists_digits n
  rw [hdigits] at hmagnitude ⊢
  refine ⟨isPiece_negative hall, ?_⟩
  have hinteger : integer? ('-' :: d :: ds) = some (-(n : Int)) := by
    rw [integer?, hmagnitude]
    rfl
  rw [if_neg nofun]
  unfold readLexeme
  dsimp only
  rw [hinteger]

theorem spells_imm {v : Int} (hv : -0x80000000 ≤ v ∧ v ≤ 0x80000000) : Spells (toString v).toList .int (.int v) := by
  cases v with
  | ofNat n =>
    rw [Int.ofNat_eq_natCast] at hv ⊢
    rw [toList_toString_ofNat]
    exact spells_nat (by omega)
  | negSucc n =>
    rw [toList_toString_negSucc, Int.negSucc_eq]
    have hspells := spells_negative (n := n + 1) (by omega)
    rwa [Int.natCast_add] at hspells

theorem spells_reg {n : Nat} (hn : n < registerCount) : Spells ('R' :: Nat.toDigits 10 n) .reg (.reg n) := by
  have hread := readNat?_toDigits n
  obtain ⟨d, ds, hdigits, hall⟩ := exists_digits n
  rw [hdigits] at hread ⊢
  refine ⟨isPiece_register hall, ?_⟩
  rw [if_neg nofun]
  unfold readLexeme
  dsimp only
  rw [List.drop_succ_cons, List.drop_zero, hread]
  dsimp only
  rw [if_pos hn]

theorem spells_displaced {p : Pointer} (hp : p ≠ .X) {q : Nat} (hq : q < 100) :
    Spells (p.letter :: '+' :: Nat.toDigits 10 q) .wordPlusQ (.ptr p (.disp q)) := by
  have hread := readNat?_toDigits q
  have hlen : (Nat.toDigits 10 q).length ≤ 2 := (Nat.length_toDigits_le_iff (by decide) (by decide)).2 hq
  obtain ⟨d, ds, hdigits, hall⟩ := exists_digits q
  rw [hdigits] at hread hlen ⊢
  refine ⟨isPiece_displaced hp hall ?_, ?_⟩
  · rw [List.length_cons] at hlen ⊢
    omega
  · rw [if_neg (by decide)]
    change readPointer (p.letter :: '+' :: d :: ds) = _
    rw [readPointer_displaced hp, hread]

/-- The written form of an operand in bounds is one piece with its meaning. -/
theorem spells_operand {op : Operand} (h : op.Writable) : Spells op.text.toList op.writtenKind op.written := by
  cases op with
  | reg n =>
    have htext : (Operand.reg n).text.toList = 'R' :: Nat.toDigits 10 n := by
      rw [Operand.text, String.toList_append, toList_toString_nat]
      rfl
    rw [htext]
    exact spells_reg h
  | imm v => exact spells_imm h
  | ptr p mode =>
    cases mode with
    | plain =>
      have htext : (Operand.ptr p .plain).text.toList = [p.letter] := by cases p <;> rfl
      rw [htext]
      exact ⟨isPiece_plain p, by cases p <;> rfl⟩
    | postInc =>
      have htext : (Operand.ptr p .postInc).text.toList = [p.letter, '+'] := by cases p <;> rfl
      rw [htext]
      exact ⟨isPiece_postInc p, by cases p <;> rfl⟩
    | preDec =>
      have htext : (Operand.ptr p .preDec).text.toList = ['-', p.letter] := by cases p <;> rfl
      rw [htext]
      exact ⟨isPiece_preDec p, by cases p <;> rfl⟩
    | disp q =>
      have htext : (Operand.ptr p (.disp q)).text.toList = p.letter :: '+' :: Nat.toDigits 10 q := by
        rw [Operand.text, String.toList_append, String.toList_append, toList_toString_nat]
        cases p <;> rfl
      rw [htext]
      exact spells_displaced h.1 h.2
  | func f =>
    cases f with
    | printf => exact ⟨isPiece_letters (List.all_eq_true.1 rfl) (by decide) (by decide), rfl⟩

/-! ## Lines -/

/-- What names of mnemonics are made of, and that they read as such. -/
theorem name_classes (m : Mnemonic) : (∀ c ∈ m.name.toList, c.isAlpha = true) ∧ 2 ≤ m.name.toList.length ∧
    m.name.toList.length ≤ 6 ∧ upper m.name = m.name ∧ Mnemonic.ofName? m.name = some m := by
  have hall : Mnemonic.all.all (fun m => m.name.toList.all Char.isAlpha && decide (2 ≤ m.name.toList.length) &&
      decide (m.name.toList.length ≤ 6) && upper m.name == m.name && Mnemonic.ofName? m.name == some m) = true := by
    decide +kernel
  have hm := List.all_eq_true.1 hall m (Mnemonic.mem_all m)
  simp only [Bool.and_eq_true, List.all_eq_true, decide_eq_true_iff, beq_iff_eq] at hm
  exact ⟨hm.1.1.1.1, hm.1.1.1.2, hm.1.1.2, hm.1.2, hm.2⟩

def Operand.WrittenAs (op : Operand) (t : Token) : Prop := t.lexeme = op.written ∧ t.raw = op.text

theorem toList_instruction_text (i : Instruction) :
    i.text.toList = lineText i.mnemonic.name.toList (i.operands.map fun op => op.text.toList) := by
  unfold Instruction.text lineText
  rw [List.isEmpty_map]
  split
  · rfl
  · rw [String.toList_append, String.toList_append, String.toList_intercalate, List.map_map,
      List.append_assoc]
    rfl

/-- The tokens of the written form of an instruction: its name, then its operands with commas. -/
theorem tokenizeLine_instruction {i : Instruction} (h : ∀ op ∈ i.operands, op.Writable) (n : Nat) :
    ∃ t args, tokenizeLine n i.text.toList = .ok ⟨n, t :: args⟩ ∧ t.lexeme = .inst i.mnemonic.name ∧
      Alternates Operand.WrittenAs (fun u => u.lexeme = .comma) i.operands args := by
  obtain ⟨hletters, h2, h6, hupper, -⟩ := name_classes i.mnemonic
  have hread : readLexeme .inst i.mnemonic.name.toList = .ok (.inst i.mnemonic.name) := by
    unfold readLexeme
    dsimp only
    rw [String.ofList_toList, hupper]
  obtain ⟨t, args, hline, ht, hargs⟩ := tokenizeLine_lineText (isPiece_letters hletters h2 h6) hread nofun nofun
    (fun op hop => spells_operand (h op hop)) n
  simp only [String.ofList_toList] at hargs
  rw [toList_instruction_text]
  exact ⟨t, args, hline, ht, hargs⟩

def byteText (b : Byte) : String := "0x" ++ hex 2 b.toNat

theorem spells_byte (b : Byte) : Spells (byteText b).toList .int (.int b.toNat) := by
  have hall : ∀ n < 256, ((hex 2 n).toList.length == 2 && (hex 2 n).toList.all isHexDigit &&
      readNat? 16 (hex 2 n).toList == some n) = true := by decide +kernel
  have hb := hall b.toNat b.isLt
  rw [Bool.and_eq_true, Bool.and_eq_true, beq_iff_eq, beq_iff_eq, List.all_eq_true] at hb
  obtain ⟨⟨hlen, hhex⟩, hvalue⟩ := hb
  obtain ⟨c, d, hdigits⟩ := List.length_eq_two.1 hlen
  rw [hdigits] at hhex hvalue
  rw [List.forall_mem_cons, List.forall_mem_singleton] at hhex
  have htext : (byteText b).toList = ['0', 'x', c, d] := by
    rw [byteText, String.toList_append, hdigits]
    rfl
  have hsmall : b.toNat < 0x8000000000000000 := Nat.lt_trans b.isLt (by decide)
  rw [htext]
  refine ⟨isPiece_hex hhex.1 hhex.2, ?_⟩
  have hmagnitude : magnitude? ['0', 'x', c, d] = some b.toNat := by
    change (readNat? 16 [c, d]).filter (· < 0x8000000000000000) = some b.toNat
    rw [hvalue, Option.filter_some, decide_eq_true hsmall, if_pos rfl]
  have hinteger : integer? ['0', 'x', c, d] = some (b.toNat : Int) := by
    change (magnitude? ['0', 'x', c, d]).map (fun n => (n : Int)) = _
    rw [hmagnitude]
    rfl
  rw [if_neg (by decide)]
  unfold readLexeme
  dsimp only
  rw [hinteger]

def byteLine (bytes : List Byte) : List Char := lineText ".byte".toList (bytes.map fun b => (byteText b).toList)

def ByteAs (b : Byte) (t : Token) : Prop := t.lexeme = .int b.toNat

theorem Alternates.imp {α β : Type} {R S : α → β → Prop} {C : β → Prop} (h : ∀ a b, R a b → S a b) {as : List α}
    {bs : List β} (hbs : Alternates R C as bs) : Alternates S C as bs := by
  induction hbs with
  | nil => exact .nil
  | one hab => exact .one (h _ _ hab)
  | cons hab hc _ ih => exact .cons (h _ _ hab) hc ih

/-- The tokens of a line of bytes: the directive, then the bytes with commas. -/
theorem tokenizeLine_bytes (bytes : List Byte) (n : Nat) :
    ∃ t args, tokenizeLine n (byteLine bytes) = .ok ⟨n, t :: args⟩ ∧ t.lexeme = .dir .byte ∧
      Alternates ByteAs (fun u => u.lexeme = .comma) bytes args := by
  have hpiece : IsPiece .dir ".byte".toList :=
    isPiece_of_cut rfl (by decide +kernel) (fun _ => rfl) (fun _ => rfl)
  obtain ⟨t, args, hline, ht, hargs⟩ := tokenizeLine_lineText hpiece (x := .dir .byte) rfl nofun nofun
    (fun b _ => spells_byte b) n
  exact ⟨t, args, hline, ht, hargs.imp fun _ _ h => h.1⟩

end Avr

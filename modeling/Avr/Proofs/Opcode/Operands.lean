import Avr.Encoding
import Avr.Proofs.Token.Arguments

/-!
# Operands that the catalog admits

* `Operand.kind`, `Operand.constrained?` : what the catalog looks at, as for the token that spells the operand;
* `Token.Spelled` : what the lexer promises of pointers: their letter as text, displacements only on Y and Z;
* `ArgSpec.Admits` : an operand that a place of the catalog admits, with one lemma for each sort of place;
* `Constraint.within` : a constraint that admits numbers of an interval only;
* `Admitted` : operands that all places of a mnemonic admit; `admitted_of_checkArgs` : those of spelled tokens;
* `Kinded` : operands of the right kinds, whatever their values are;
* `Instruction.Accepted` : an instruction of a statement with spelled operands.
-/

namespace Avr

open Catalog

/-! ## What the catalog looks at -/

def Operand.kind : Operand → ArgKind
  | reg _ => .reg
  | imm _ => .int
  | ptr _ .plain => .word
  | ptr _ .postInc => .wordPlus
  | ptr _ .preDec => .minusWord
  | ptr _ (.disp _) => .wordPlusQ
  | func _ => .func

def Operand.constrained? : Operand → Option Int
  | reg n => some n
  | imm v => some v
  | ptr _ (.disp q) => some q
  | ptr _ _ => some 0
  | func _ => none

/-- A pointer alone is written as its letter, and only Y and Z take a displacement. -/
def Token.Spelled (t : Token) : Prop :=
  match t.lexeme with
  | .ptr p .plain => t.raw = p.name
  | .ptr p (.disp _) => p ≠ .X
  | _ => True

theorem argKind?_of_operand? {t : Token} {op : Operand} (h : t.operand? = some op) : t.argKind? = some op.kind := by
  obtain ⟨lexeme, raw, loc⟩ := t
  unfold Token.operand? at h
  cases lexeme with
  | ptr p m => cases m <;> cases h <;> rfl
  | reg | int | func => cases h; rfl
  | _ => cases h

theorem constrained?_of_operand? {t : Token} {op : Operand} (h : t.operand? = some op) :
    t.constrained? = op.constrained? := by
  obtain ⟨lexeme, raw, loc⟩ := t
  unfold Token.operand? at h
  cases lexeme with
  | ptr p m => cases m <;> cases h <;> rfl
  | reg | int | func => cases h; rfl
  | _ => cases h

/-! ## Places -/

/-- An operand that a place of the catalog admits. Functions are admitted for their kind alone. -/
structure Catalog.ArgSpec.Admits (s : ArgSpec) (op : Operand) : Prop where
  kind : s.admitsKind op.kind = true
  value : (∃ f, op = .func f) ∨
    (s.constraint.admitsText op.text = true ∧ op.constrained?.all s.constraint.admitsValue = true)
  letter : ∀ q, op ≠ .ptr .X (.disp q)

theorem admitsValue_range {low high v : Int} :
    (Constraint.range low high).admitsValue v = true ↔ low ≤ v ∧ v ≤ high := by
  rw [Constraint.admitsValue, Bool.and_eq_true, decide_eq_true_iff, decide_eq_true_iff]

/-- Whether a condition admits numbers of an interval only. -/
def Catalog.Constraint.within (low high : Int) : Constraint → Bool
  | range l h => decide (low ≤ l) && decide (h ≤ high)
  | oneOf values => values.all fun v => decide (low ≤ v) && decide (v ≤ high)
  | any | exact _ => false

theorem Catalog.Constraint.bounds_of_within {c : Constraint} {low high v : Int} (hc : c.within low high = true)
    (hv : c.admitsValue v = true) : low ≤ v ∧ v ≤ high := by
  cases c with
  | range l h =>
    rw [within, Bool.and_eq_true, decide_eq_true_iff, decide_eq_true_iff] at hc
    obtain ⟨hl, hh⟩ := admitsValue_range.1 hv
    omega
  | oneOf values =>
    have hmem : v ∈ values := List.contains_iff_mem.1 hv
    have hbounds := List.all_eq_true.1 hc v hmem
    rwa [Bool.and_eq_true, decide_eq_true_iff, decide_eq_true_iff] at hbounds
  | any | exact _ => cases hc

namespace Catalog.ArgSpec.Admits

variable {c : Constraint} {op : Operand}

theorem kind_mem {s : ArgSpec} (h : s.Admits op) : op.kind ∈ s.kinds := List.contains_iff_mem.1 h.kind

theorem admitsValue {s : ArgSpec} (h : s.Admits op) {v : Int} (hv : op.constrained? = some v) :
    s.constraint.admitsValue v = true := by
  rcases h.value with ⟨f, rfl⟩ | ⟨-, hall⟩
  · cases hv
  · rw [hv] at hall
    exact hall

theorem reg (h : ArgSpec.Admits ⟨[.reg], c⟩ op) : ∃ n : Nat, op = .reg n ∧ c.admitsValue n = true := by
  have hkind := h.kind_mem
  cases op with
  | reg n => exact ⟨n, rfl, h.admitsValue rfl⟩
  | ptr p m => cases m <;> simp [Operand.kind] at hkind
  | _ => simp [Operand.kind] at hkind

theorem int (h : ArgSpec.Admits ⟨[.int], c⟩ op) : ∃ v, op = .imm v ∧ c.admitsValue v = true := by
  have hkind := h.kind_mem
  cases op with
  | imm v => exact ⟨v, rfl, h.admitsValue rfl⟩
  | ptr p m => cases m <;> simp [Operand.kind] at hkind
  | _ => simp [Operand.kind] at hkind

theorem intOrFunc (h : ArgSpec.Admits ⟨[.int, .func], c⟩ op) :
    (∃ f, op = .func f) ∨ ∃ v, op = .imm v ∧ c.admitsValue v = true := by
  have hkind := h.kind_mem
  cases op with
  | imm v => exact .inr ⟨v, rfl, h.admitsValue rfl⟩
  | func f => exact .inl ⟨f, rfl⟩
  | ptr p m => cases m <;> simp [Operand.kind] at hkind
  | reg n => simp [Operand.kind] at hkind

theorem registerUpTo (n : Nat) (hc : c.within 0 n = true) (h : ArgSpec.Admits ⟨[.reg], c⟩ op) :
    ∃ r : Fin (n + 1), op = .reg r := by
  obtain ⟨r, rfl, hr⟩ := h.reg
  have hbounds := Constraint.bounds_of_within hc hr
  exact ⟨⟨r, by omega⟩, rfl⟩

theorem numberUpTo (n : Nat) (hc : c.within 0 n = true) (h : ArgSpec.Admits ⟨[.int], c⟩ op) :
    ∃ a : Fin (n + 1), op = .imm a.val := by
  obtain ⟨v, rfl, hv⟩ := h.int
  have hbounds := Constraint.bounds_of_within hc hv
  refine ⟨⟨v.toNat, by omega⟩, ?_⟩
  rw [Int.toNat_of_nonneg hbounds.1]

theorem pointer (h : Place.pointer.Admits op) : ∃ p m, op = .ptr p m ∧ ∀ q, m ≠ .disp q := by
  have hkind := h.kind_mem
  cases op with
  | ptr p m =>
    refine ⟨p, m, rfl, ?_⟩
    rintro q rfl
    simp [Operand.kind, Place.pointer] at hkind
  | _ => simp [Operand.kind, Place.pointer] at hkind

theorem pointerDisp (h : Place.pointerDisp.Admits op) : ∃ p q, op = .ptr p (.disp q) ∧ p ≠ .X ∧ q ≤ 63 := by
  have hkind := h.kind_mem
  cases op with
  | ptr p m =>
    cases m with
    | disp q =>
      refine ⟨p, q, rfl, ?_, ?_⟩
      · rintro rfl
        exact h.letter q rfl
      · have := admitsValue_range.1 (h.admitsValue rfl)
        omega
    | _ => simp [Operand.kind, Place.pointerDisp] at hkind
  | _ => simp [Operand.kind, Place.pointerDisp] at hkind

theorem pointerZ (h : Place.pointerZ.Admits op) : op = .ptr .Z .plain := by
  have hkind := h.kind_mem
  cases op with
  | ptr p m =>
    cases m with
    | plain =>
      rcases h.value with ⟨f, hf⟩ | ⟨htext, -⟩
      · cases hf
      · cases p with
        | Z => rfl
        | X | Y => exact absurd htext (by decide)
    | _ => simp [Operand.kind, Place.pointerZ] at hkind
  | _ => simp [Operand.kind, Place.pointerZ] at hkind

end Catalog.ArgSpec.Admits

/-! ## Operands of a mnemonic -/

def Admitted (m : Mnemonic) (ops : List Operand) : Prop := List.Forall₂ ArgSpec.Admits m.entry.args ops

def Kinded (m : Mnemonic) (ops : List Operand) : Prop :=
  List.Forall₂ (fun (s : ArgSpec) op => op.kind ∈ s.kinds) m.entry.args ops

theorem Admitted.kinded {m : Mnemonic} {ops : List Operand} (h : Admitted m ops) : Kinded m ops :=
  List.Forall₂.imp (fun _ _ hadmits => hadmits.kind_mem) h

/-- Whether a place for more than a pointer alone asks for no text. -/
def takesWordIfExact (s : ArgSpec) : Bool :=
  match s.constraint with
  | .exact _ => s.kinds == [.word]
  | _ => true

/-- Only places for a pointer alone ask for a text. -/
theorem kinds_of_exact (m : Mnemonic) : ∀ s ∈ m.entry.args, ∀ text, s.constraint = .exact text → s.kinds = [.word] := by
  have hall : m.entry.args.all takesWordIfExact = true := by
    cases m <;> decide
  intro s hs text htext
  have hword := List.all_eq_true.1 hall s hs
  rw [takesWordIfExact, htext] at hword
  exact eq_of_beq hword

/-- A token is accepted in a place if it spells an operand of an admitted kind that meets the constraint. -/
theorem checkArg_eq_ok_iff {m : Mnemonic} {place : Nat} {s : ArgSpec} {t : Token} {op : Operand} :
    checkArg m place s t = .ok op ↔ t.operand? = some op ∧ s.admitsKind op.kind = true ∧
      ((∃ f, op = .func f) ∨
        (s.constraint.admitsText t.raw = true ∧ op.constrained?.all s.constraint.admitsValue = true)) := by
  unfold checkArg
  cases hop : t.operand? with
  | none => cases t.argKind? <;> simp
  | some op' =>
    rw [argKind?_of_operand? hop, constrained?_of_operand? hop]
    by_cases hkind : s.admitsKind op'.kind = true
    · cases op' with
      | func f =>
        simp only [hkind, Bool.not_true, Bool.false_eq_true, if_false, Except.ok.injEq, Option.some.injEq]
        constructor
        · rintro rfl
          exact ⟨rfl, hkind, .inl ⟨f, rfl⟩⟩
        · exact fun h => h.1
      | _ =>
        simp only [hkind, Bool.not_true, Bool.false_eq_true, if_false, Option.some.injEq]
        split
        · next hvalue =>
          rw [Bool.and_eq_true] at hvalue
          constructor
          · rintro h
            cases h
            exact ⟨rfl, hkind, .inr hvalue⟩
          · rintro ⟨rfl, -, -⟩
            rfl
        · next hvalue =>
          refine ⟨fun h => (by cases h), ?_⟩
          rintro ⟨rfl, -, ⟨f, hf⟩ | h⟩
          · cases hf
          · exact absurd (Bool.and_eq_true_iff.2 h) hvalue
    · simp only [hkind, Bool.not_false, if_true, Option.some.injEq, reduceCtorEq, false_iff, not_and]
      rintro rfl h
      exact absurd h hkind

theorem admitsText_text {s : ArgSpec} {t : Token} {op : Operand}
    (hs : ∀ text, s.constraint = .exact text → s.kinds = [.word]) (ht : t.Spelled) (hop : t.operand? = some op)
    (hkind : s.admitsKind op.kind = true) (h : s.constraint.admitsText t.raw = true) :
    s.constraint.admitsText op.text = true := by
  cases hc : s.constraint with
  | exact text =>
    have hword : op.kind = .word := by
      unfold ArgSpec.admitsKind at hkind
      rw [hs text hc] at hkind
      simpa using hkind
    obtain ⟨lexeme, raw, loc⟩ := t
    cases lexeme with
    | ptr p m =>
      cases m with
      | plain =>
        cases hop
        have hraw : raw = p.name := ht
        rw [hc, hraw] at h
        exact h
      | _ => cases hop; cases hword
    | reg | int | func => cases hop; cases hword
    | _ => cases hop
  | _ => rfl

theorem admits_of_checkArg {m : Mnemonic} {place : Nat} {s : ArgSpec} {t : Token} {op : Operand}
    (hs : ∀ text, s.constraint = .exact text → s.kinds = [.word]) (ht : t.Spelled)
    (h : checkArg m place s t = .ok op) : s.Admits op := by
  obtain ⟨hop, hkind, hvalue⟩ := checkArg_eq_ok_iff.1 h
  refine ⟨hkind, hvalue.imp id fun hv => ⟨admitsText_text hs ht hop hkind hv.1, hv.2⟩, ?_⟩
  rintro q rfl
  obtain ⟨lexeme, raw, loc⟩ := t
  cases lexeme with
  | ptr p m =>
    cases hop
    exact ht rfl
  | _ => cases hop

/-! ## Argument lists -/

/-- Accepted operands: as many tokens as the mnemonic has places, each accepted in its own. -/
theorem checkArgs_eq_ok_iff {m : Mnemonic} {loc : Loc} {args : List Token} {ops : List Operand} :
    checkArgs m loc args = .ok ops ↔ ∃ ts, splitArgs args = .ok ts ∧ ts.length = m.entry.arity ∧
      List.Forall₂ (fun (p : (ArgSpec × Token) × Nat) op => checkArg m p.2 p.1.1 p.1.2 = .ok op)
        (m.entry.args.zip ts).zipIdx ops := by
  unfold checkArgs
  cases hsplit : splitArgs args with
  | error t => simp
  | ok ts =>
    simp only [Except.ok.injEq, exists_eq_left']
    by_cases hlen : ts.length = m.entry.arity
    · rw [if_neg (not_not_intro hlen), mapM_eq_ok_iff]
      simp only [hlen, true_and]
      refine ⟨List.Forall₂.imp fun p op h => ?_, List.Forall₂.imp fun p op h => ?_⟩
      · split at h
        · next heq =>
          cases h
          exact heq
        · cases h
      · rw [h]
    · rw [if_pos hlen]
      simp [hlen]

/-- The operands of spelled tokens are admitted by their places. -/
theorem admitted_of_checkArgs {m : Mnemonic} {loc : Loc} {args : List Token} {ops : List Operand}
    (hargs : ∀ t ∈ args, t.Spelled) (h : checkArgs m loc args = .ok ops) : Admitted m ops := by
  obtain ⟨ts, hts, hlen, hall⟩ := checkArgs_eq_ok_iff.1 h
  have hsub := (splitArgs_eq_ok.1 hts).sublist
  rw [Entry.arity] at hlen
  rw [List.forall₂_iff_get] at hall
  obtain ⟨hops, hget⟩ := hall
  rw [List.length_zipIdx, List.length_zip, hlen, Nat.min_self] at hops
  rw [Admitted, List.forall₂_iff_get]
  refine ⟨hops, fun k hk hk' => ?_⟩
  have hkts : k < ts.length := by omega
  have hcheck := hget k (by rw [List.length_zipIdx, List.length_zip]; omega) hk'
  simp only [List.get_eq_getElem, List.getElem_zipIdx, List.getElem_zip] at hcheck
  exact admits_of_checkArg (kinds_of_exact m _ (List.getElem_mem hk))
    (hargs _ (hsub.subset (List.getElem_mem hkts))) hcheck

/-- An instruction of a statement whose tokens are spelled as the lexer spells them. -/
def Instruction.Accepted (i : Instruction) : Prop :=
  ∃ s : Statement, (∀ t ∈ s.args, t.Spelled) ∧ s.instruction = .ok i

theorem Instruction.Accepted.admitted {i : Instruction} (h : i.Accepted) : Admitted i.mnemonic i.operands := by
  obtain ⟨s, hs, hi⟩ := h
  obtain ⟨ops, hops, hi⟩ := bind_eq_ok.1 hi
  split at hi
  · cases hi
    exact admitted_of_checkArgs hs hops
  · cases hi

theorem Instruction.Accepted.encode {i : Instruction} (h : i.Accepted) :
    Avr.encode i.mnemonic i.operands = some i.opcode := by
  obtain ⟨s, hs, hi⟩ := h
  obtain ⟨ops, hops, hi⟩ := bind_eq_ok.1 hi
  split at hi
  · next opcode hopcode =>
    cases hi
    exact hopcode
  · cases hi

end Avr

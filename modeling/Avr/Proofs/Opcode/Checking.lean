import Avr.Proofs.Opcode.Digits

/-!
# What operand checking accepts

* `Constraint.Meets`, `ArgSpec.Takes` : a token that a place of the catalog takes;
* `Token.StandsFor` : the operand that a token stands for;
* `exists_encode` : operands of the right kinds have an opcode;
* `checkArgs_exact` : operand checking accepts exactly what the catalog says, and all of that has an opcode.
-/

namespace Avr

open Catalog

/-! ## Places -/

def Catalog.Constraint.Meets (t : Token) : Constraint → Prop
  | any => True
  | range low high => ∃ v, t.constrained? = some v ∧ low ≤ v ∧ v ≤ high
  | oneOf values => ∃ v, t.constrained? = some v ∧ v ∈ values
  | exact text => Text.lower t.raw = Text.lower text

/-- A token that a place takes: its kind is one of the place's kinds, and unless it is a function, it satisfies the
constraint. -/
structure Catalog.ArgSpec.Takes (s : ArgSpec) (t : Token) : Prop where
  kind : ∃ kind ∈ s.kinds, t.argKind? = some kind
  constraint : t.argKind? ≠ some .func → s.constraint.Meets t

inductive Token.StandsFor : Token → Operand → Prop
  | reg (n : Nat) (raw : String) (loc : Loc) : StandsFor ⟨.reg n, raw, loc⟩ (.reg n)
  | imm (v : Int) (raw : String) (loc : Loc) : StandsFor ⟨.int v, raw, loc⟩ (.imm v)
  | plain (p : Pointer) (raw : String) (loc : Loc) : StandsFor ⟨.ptr p .plain, raw, loc⟩ (.ptr p .plain)
  | postInc (p : Pointer) (raw : String) (loc : Loc) : StandsFor ⟨.ptr p .postInc, raw, loc⟩ (.ptr p .postInc)
  | preDec (p : Pointer) (raw : String) (loc : Loc) : StandsFor ⟨.ptr p .preDec, raw, loc⟩ (.ptr p .preDec)
  | disp (p : Pointer) (q : Nat) (raw : String) (loc : Loc) :
      StandsFor ⟨.ptr p (.disp q), raw, loc⟩ (.ptr p (.disp q))
  | func (f : PseudoFunc) (raw : String) (loc : Loc) : StandsFor ⟨.func f, raw, loc⟩ (.func f)

theorem standsFor_iff {t : Token} {op : Operand} : t.StandsFor op ↔ t.operand? = some op := by
  constructor
  · intro h
    cases h <;> rfl
  · intro h
    obtain ⟨lexeme, raw, loc⟩ := t
    unfold Token.operand? at h
    cases lexeme with
    | ptr p mode => cases mode <;> cases h <;> constructor
    | reg | int | func =>
      cases h
      constructor
    | _ => cases h

theorem exists_standsFor {t : Token} {kind : ArgKind} (h : t.argKind? = some kind) : ∃ op, t.StandsFor op := by
  obtain ⟨lexeme, raw, loc⟩ := t
  cases lexeme with
  | ptr p mode => cases mode <;> exact ⟨_, standsFor_iff.2 rfl⟩
  | reg | int | func => exact ⟨_, standsFor_iff.2 rfl⟩
  | select half => cases half <;> cases h
  | _ => cases h

/-- Only functions have no number for a constraint. -/
theorem exists_constrained? {op : Operand} (h : ∀ f, op ≠ .func f) : ∃ v, op.constrained? = some v := by
  cases op with
  | func f => exact absurd rfl (h f)
  | ptr p mode => cases mode <;> exact ⟨_, rfl⟩
  | _ => exact ⟨_, rfl⟩

theorem meets_iff {c : Constraint} {t : Token} {v : Int} (hv : t.constrained? = some v) :
    c.Meets t ↔ c.admitsText t.raw = true ∧ c.admitsValue v = true := by
  cases c with
  | any => simp [Constraint.Meets, Constraint.admitsText, Constraint.admitsValue]
  | range low high => simp [Constraint.Meets, Constraint.admitsText, admitsValue_range, hv]
  | oneOf values => simp [Constraint.Meets, Constraint.admitsText, Constraint.admitsValue, hv]
  | exact text => simp [Constraint.Meets, Constraint.admitsText, Constraint.admitsValue, Text.sameLetters]

/-- A token is accepted in a place if and only if the place takes it, as the operand that it stands for. -/
theorem checkArg_eq_ok {m : Mnemonic} {place : Nat} {s : ArgSpec} {t : Token} {op : Operand} :
    checkArg m place s t = .ok op ↔ s.Takes t ∧ t.StandsFor op := by
  rw [checkArg_eq_ok_iff, standsFor_iff, and_comm (b := t.operand? = some op)]
  refine and_congr_right fun hop => ?_
  have hkind := argKind?_of_operand? hop
  have hmem : s.admitsKind op.kind = true ↔ ∃ kind ∈ s.kinds, t.argKind? = some kind := by
    rw [hkind, ArgSpec.admitsKind, List.contains_iff_mem]
    simp
  by_cases hfunc : ∃ f, op = .func f
  · obtain ⟨f, rfl⟩ := hfunc
    refine ⟨fun h => ⟨hmem.1 h.1, fun hne => absurd hkind hne⟩, fun h => ⟨hmem.2 h.kind, .inl ⟨f, rfl⟩⟩⟩
  · obtain ⟨v, hv⟩ := exists_constrained? fun f hf => hfunc ⟨f, hf⟩
    have hmeets := meets_iff (c := s.constraint) ((constrained?_of_operand? hop).trans hv)
    have hne : t.argKind? ≠ some .func := by
      rw [hkind]
      intro h
      cases op with
      | func f => exact hfunc ⟨f, rfl⟩
      | ptr p mode => cases mode <;> cases h
      | _ => cases h
    rw [hv, Option.all_some]
    constructor
    · rintro ⟨hadmits, hfunc' | hvalue⟩
      · exact absurd hfunc' hfunc
      · exact ⟨hmem.1 hadmits, fun _ => hmeets.2 hvalue⟩
    · intro h
      exact ⟨hmem.2 h.kind, .inr (hmeets.1 (h.constraint hne))⟩

/-! ## Argument lists -/

theorem forall₂_checkArg {m : Mnemonic} {specs : List ArgSpec} {ts : List Token} {ops : List Operand} (k : Nat)
    (hlen : ts.length = specs.length) :
    List.Forall₂ (fun (p : (ArgSpec × Token) × Nat) op => checkArg m p.2 p.1.1 p.1.2 = .ok op)
        ((specs.zip ts).zipIdx k) ops ↔
      List.Forall₂ ArgSpec.Takes specs ts ∧ List.Forall₂ Token.StandsFor ts ops := by
  induction specs generalizing ts ops k with
  | nil =>
    obtain rfl : ts = [] := List.length_eq_zero_iff.1 hlen
    simp
  | cons s specs ih =>
    cases ts with
    | nil => cases hlen
    | cons t ts =>
      rw [List.zip_cons_cons, List.zipIdx_cons, List.forall₂_cons]
      constructor
      · intro h
        cases h with
        | cons hhead hrest =>
          obtain ⟨htakes, hstands⟩ := checkArg_eq_ok.1 hhead
          obtain ⟨htakes', hstands'⟩ := (ih (k + 1) (Nat.succ.inj hlen)).1 hrest
          exact ⟨⟨htakes, htakes'⟩, .cons hstands hstands'⟩
      · rintro ⟨⟨htakes, htakes'⟩, hstands⟩
        cases hstands with
        | cons hhead hrest =>
          exact .cons (checkArg_eq_ok.2 ⟨htakes, hhead⟩) ((ih (k + 1) (Nat.succ.inj hlen)).2 ⟨htakes', hrest⟩)

/-- Operands are accepted if and only if they are those of as many values as the mnemonic has places, each of which
takes its value. -/
theorem checkArgs_eq_ok {m : Mnemonic} {loc : Loc} {args : List Token} {ops : List Operand} :
    checkArgs m loc args = .ok ops ↔ ∃ ts, ValuesOf ts args ∧ ts.length = m.entry.arity ∧
      List.Forall₂ ArgSpec.Takes m.entry.args ts ∧ List.Forall₂ Token.StandsFor ts ops := by
  rw [checkArgs_eq_ok_iff]
  apply exists_congr
  intro ts
  rw [splitArgs_eq_ok]
  refine and_congr_right fun _ => and_congr_right fun hlen => ?_
  exact forall₂_checkArg 0 hlen

theorem exists_operands {specs : List ArgSpec} {ts : List Token} (h : List.Forall₂ ArgSpec.Takes specs ts) :
    ∃ ops, List.Forall₂ Token.StandsFor ts ops := by
  induction h with
  | nil => exact ⟨[], .nil⟩
  | cons hhead _ ih =>
    obtain ⟨kind, -, hkind⟩ := hhead.kind
    obtain ⟨op, hop⟩ := exists_standsFor hkind
    obtain ⟨ops, hops⟩ := ih
    exact ⟨op :: ops, .cons hop hops⟩

theorem kinded_of_takes {m : Mnemonic} {ts : List Token} {ops : List Operand}
    (htakes : List.Forall₂ ArgSpec.Takes m.entry.args ts) (hstands : List.Forall₂ Token.StandsFor ts ops) :
    Kinded m ops := by
  refine forall₂_comp ?_ htakes hstands
  rintro s op ⟨t, ht, hop⟩
  obtain ⟨kind, hmem, hkind⟩ := ht.kind
  rw [argKind?_of_operand? (standsFor_iff.1 hop)] at hkind
  cases hkind
  exact hmem

/-! ## Opcodes -/

theorem exists_reg {op : Operand} (h : op.kind ∈ [ArgKind.reg]) : ∃ n, op = .reg n := by
  cases op with
  | reg n => exact ⟨n, rfl⟩
  | ptr p mode => cases mode <;> simp [Operand.kind] at h
  | _ => simp [Operand.kind] at h

theorem exists_imm {op : Operand} (h : op.kind ∈ [ArgKind.int]) : ∃ v, op = .imm v := by
  cases op with
  | imm v => exact ⟨v, rfl⟩
  | ptr p mode => cases mode <;> simp [Operand.kind] at h
  | _ => simp [Operand.kind] at h

theorem exists_ptr {op : Operand}
    (h : op.kind ∈ [ArgKind.word, .minusWord, .wordPlus] ∨ op.kind ∈ [ArgKind.wordPlusQ]) :
    ∃ p mode, op = .ptr p mode := by
  cases op with
  | ptr p mode => exact ⟨p, mode, rfl⟩
  | _ => simp [Operand.kind] at h

theorem kinded_one {m : Mnemonic} {s : ArgSpec} {ops : List Operand} (hm : m.entry.args = [s]) (h : Kinded m ops) :
    ∃ a, ops = [a] ∧ a.kind ∈ s.kinds := by
  rw [Kinded, hm] at h
  obtain ⟨a, rest, ha, hnil, rfl⟩ := List.forall₂_cons_left_iff.1 h
  obtain rfl := List.forall₂_nil_left_iff.1 hnil
  exact ⟨a, rfl, ha⟩

theorem kinded_two {m : Mnemonic} {s s' : ArgSpec} {ops : List Operand} (hm : m.entry.args = [s, s'])
    (h : Kinded m ops) : ∃ a b, ops = [a, b] ∧ a.kind ∈ s.kinds ∧ b.kind ∈ s'.kinds := by
  rw [Kinded, hm] at h
  obtain ⟨a, rest, ha, hrest, rfl⟩ := List.forall₂_cons_left_iff.1 h
  obtain ⟨b, rest, hb, hnil, rfl⟩ := List.forall₂_cons_left_iff.1 hrest
  obtain rfl := List.forall₂_nil_left_iff.1 hnil
  exact ⟨a, b, rfl, ha, hb⟩

theorem mem_irregular {m : Mnemonic} (hm : m.entry.encoding = .irregular) :
    m ∈ [Mnemonic.ADIW, .SBIW, .CBR, .MOVW, .CLR, .LSL, .ROL, .TST, .LD, .LDD, .ST, .STD] := by
  cases m <;> first | decide | nomatch hm

/-- Operands of the right kinds have an opcode without a template, one case for each rule. -/
theorem exists_encodeIrregular {m : Mnemonic} {ops : List Operand} (hm : m.entry.encoding = .irregular)
    (h : Kinded m ops) : ∃ o, encodeIrregular m ops = some o := by
  have hmem := mem_irregular hm
  simp only [List.mem_cons, List.not_mem_nil, or_false] at hmem
  rcases hmem with rfl | rfl | rfl | rfl | rfl | rfl | rfl | rfl | rfl | rfl | rfl | rfl
  case _ | _ | _ =>
    obtain ⟨_, _, rfl, ha, hb⟩ := kinded_two rfl h
    obtain ⟨n, rfl⟩ := exists_reg ha
    obtain ⟨k, rfl⟩ := exists_imm hb
    exact ⟨_, rfl⟩
  case _ =>
    obtain ⟨_, _, rfl, ha, hb⟩ := kinded_two rfl h
    obtain ⟨n, rfl⟩ := exists_reg ha
    obtain ⟨k, rfl⟩ := exists_reg hb
    exact ⟨_, rfl⟩
  case _ | _ | _ | _ =>
    obtain ⟨_, rfl, ha⟩ := kinded_one rfl h
    obtain ⟨n, rfl⟩ := exists_reg ha
    exact ⟨_, rfl⟩
  case _ =>
    obtain ⟨_, _, rfl, ha, hb⟩ := kinded_two rfl h
    obtain ⟨n, rfl⟩ := exists_reg ha
    obtain ⟨p, mode, rfl⟩ := exists_ptr (.inl hb)
    exact ⟨_, rfl⟩
  case _ =>
    obtain ⟨_, _, rfl, ha, hb⟩ := kinded_two rfl h
    obtain ⟨n, rfl⟩ := exists_reg ha
    obtain ⟨p, mode, rfl⟩ := exists_ptr (.inr hb)
    exact ⟨_, rfl⟩
  case _ =>
    obtain ⟨_, _, rfl, ha, hb⟩ := kinded_two rfl h
    obtain ⟨p, mode, rfl⟩ := exists_ptr (.inl ha)
    obtain ⟨n, rfl⟩ := exists_reg hb
    exact ⟨_, rfl⟩
  case _ =>
    obtain ⟨_, _, rfl, ha, hb⟩ := kinded_two rfl h
    obtain ⟨p, mode, rfl⟩ := exists_ptr (.inr ha)
    obtain ⟨n, rfl⟩ := exists_reg hb
    exact ⟨_, rfl⟩

/-- Operands of the right kinds have an opcode, by a template or a rule of its own. -/
theorem exists_encode {m : Mnemonic} {ops : List Operand} (h : Kinded m ops) : ∃ o, encode m ops = some o := by
  unfold encode
  cases hm : m.entry.encoding with
  | template fields bits =>
    obtain ⟨values, hv⟩ := exists_fieldValues? hm h
    dsimp only
    rw [hv]
    exact ⟨_, rfl⟩
  | irregular =>
    obtain ⟨o, ho⟩ := exists_encodeIrregular hm h
    dsimp only
    rw [ho]
    exact ⟨_, rfl⟩

/-- Operand checking accepts exactly the catalog, and what it accepts has an opcode. An argument list is accepted if
and only if it has single commas between its values, as many values as the mnemonic has places, and each place takes
its value. The operands are then those that the values stand for, place by place, and their opcode is a text of binary
digits, 16 for each word of the instruction. -/
theorem checkArgs_exact (m : Mnemonic) (loc : Loc) (args : List Token) :
    ((∃ ops, checkArgs m loc args = .ok ops) ↔
      ∃ ts, ValuesOf ts args ∧ ts.length = m.entry.arity ∧ List.Forall₂ ArgSpec.Takes m.entry.args ts) ∧
    ∀ ops, checkArgs m loc args = .ok ops →
      (∃ ts, ValuesOf ts args ∧ List.Forall₂ Token.StandsFor ts ops) ∧
      ∃ o, encode m ops = some o ∧ o.toList.length = 16 * m.entry.width ∧ ∀ c ∈ o.toList, c = '0' ∨ c = '1' := by
  refine ⟨⟨?_, ?_⟩, ?_⟩
  · rintro ⟨ops, hops⟩
    obtain ⟨ts, hvalues, hlen, htakes, -⟩ := checkArgs_eq_ok.1 hops
    exact ⟨ts, hvalues, hlen, htakes⟩
  · rintro ⟨ts, hvalues, hlen, htakes⟩
    obtain ⟨ops, hops⟩ := exists_operands htakes
    exact ⟨ops, checkArgs_eq_ok.2 ⟨ts, hvalues, hlen, htakes, hops⟩⟩
  · intro ops hops
    obtain ⟨ts, hvalues, hlen, htakes, hstands⟩ := checkArgs_eq_ok.1 hops
    have hkinded := kinded_of_takes htakes hstands
    obtain ⟨o, ho⟩ := exists_encode hkinded
    obtain ⟨hlength, hdigits⟩ := encode_digits hkinded ho
    exact ⟨⟨ts, hvalues, hstands⟩, o, ho, hlength, hdigits⟩

end Avr

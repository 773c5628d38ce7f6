import Avr.Proofs.Layout.Reference
import Avr.Proofs.Token.Written

/-!
# Lists of operands as they are resolved

* `resolveArgs_alternates` : a list with commas, each item of which turns into an operand;
* `splitArgs_alternates` : its values;
* `Instruction.StatedBy` : a statement with the tokens of the written form of an instruction;
* `instruction_statedBy` : it turns into that instruction again.
-/

namespace Avr

open Catalog

abbrev IsComma (t : Token) : Prop := t.lexeme = .comma

variable {α : Type} {R S : α → Token → Prop} {symbols : Symbols} {r : Reference}

/-! ## Lists with commas -/

theorem Alternates.forall_mem {as : List α} {ts : List Token} (h : Alternates R IsComma as ts) {p : Token → Prop}
    (hitem : ∀ a ∈ as, ∀ t, R a t → p t) (hcomma : ∀ t, IsComma t → p t) : ∀ t ∈ ts, p t := by
  induction h with
  | nil => exact fun _ ht => absurd ht List.not_mem_nil
  | one ht => exact List.forall_mem_cons.2 ⟨hitem _ List.mem_cons_self _ ht, fun _ ht => absurd ht List.not_mem_nil⟩
  | cons ht hc _ ih =>
    rw [List.forall_mem_cons] at hitem
    exact List.forall_mem_cons.2 ⟨hitem.1 _ ht, List.forall_mem_cons.2 ⟨hcomma _ hc, ih hitem.2⟩⟩

theorem Alternates.resolveRefs (hR : ∀ a t, R a t → ∃ t', resolveRef symbols r t = .ok t' ∧ S a t') {as : List α}
    {ts : List Token} (h : Alternates R IsComma as ts) :
    ∃ ts', Avr.resolveRefs symbols r ts = .ok ts' ∧ Alternates S IsComma as ts' := by
  induction h with
  | nil => exact ⟨[], rfl, .nil⟩
  | one ht =>
    obtain ⟨t', ht', hS⟩ := hR _ _ ht
    exact ⟨[t'], mapM_singleton_eq_ok.2 ⟨t', rfl, ht'⟩, .one hS⟩
  | @cons a a' t c as ts ht hc _ ih =>
    obtain ⟨t', ht', hS⟩ := hR _ _ ht
    obtain ⟨ts', hts', hrest⟩ := ih
    have hcomma : resolveRef symbols r c = .ok c := by
      unfold resolveRef
      rw [hc]
    refine ⟨t' :: c :: ts', ?_, .cons hS hc hrest⟩
    rw [Avr.resolveRefs, mapM_eq_ok_iff] at hts' ⊢
    exact .cons ht' (.cons hcomma hts')

theorem noGroup_of_operand {t : Token} {op : Operand} (h : t.operand? = some op) :
    (∀ h, t.lexeme ≠ .select h) ∧ ∀ g, t.lexeme ≠ .sign g := by
  unfold Token.operand? at h
  refine ⟨fun half ht => ?_, fun g ht => ?_⟩
  all_goals
    rw [ht] at h
    cases h

/-- An operand in front of a comma or of nothing is left as it is. -/
theorem evaluate_cons_operand {t : Token} {op : Operand} (h : t.operand? = some op) {ts : List Token}
    (hts : ∀ c ∈ ts.head?, Expr.inAlphabet c = false) : Expr.evaluate (t :: ts) = (Expr.evaluate ts).map (t :: ·) := by
  cases halpha : Expr.inAlphabet t with
  | false => exact evaluate_cons_other halpha ts
  | true =>
    have hkind : t.kind = .int := by
      rw [Expr.inAlphabet, Bool.or_eq_true, beq_iff_eq, beq_iff_eq] at halpha
      refine halpha.resolve_right fun hmath => ?_
      have hargs := argKind?_of_operand? h
      rw [Token.argKind?, hmath] at hargs
      cases hargs
    have hrun : ts.takeWhile Expr.inAlphabet = [] ∧ ts.dropWhile Expr.inAlphabet = ts := by
      cases ts with
      | nil => exact ⟨rfl, rfl⟩
      | cons c ts =>
        have hc : ¬ Expr.inAlphabet c = true := by
          rw [hts c rfl]
          exact Bool.false_ne_true
        exact ⟨List.takeWhile_cons_of_neg hc, List.dropWhile_cons_of_neg hc⟩
    rw [Expr.evaluate, if_pos halpha, hrun.1, hrun.2, Expr.collapse, if_pos ⟨rfl, hkind⟩]
    cases Expr.evaluate ts <;> rfl

theorem Alternates.evaluate (hS : ∀ a t, S a t → ∃ op, t.operand? = some op) {as : List α} {ts : List Token}
    (h : Alternates S IsComma as ts) : Expr.evaluate ts = .ok ts := by
  induction h with
  | nil => rw [Expr.evaluate]
  | one ht =>
    obtain ⟨op, hop⟩ := hS _ _ ht
    rw [evaluate_cons_operand hop (by simp), Expr.evaluate]
    rfl
  | @cons a a' t c as ts ht hc _ ih =>
    obtain ⟨op, hop⟩ := hS _ _ ht
    have halpha := inAlphabet_comma hc
    have hfirst : ∀ u ∈ (c :: ts).head?, Expr.inAlphabet u = false := by
      intro u hu
      obtain rfl : c = u := Option.some.inj hu
      exact halpha
    rw [evaluate_cons_operand hop hfirst, evaluate_cons_other halpha, ih]
    rfl

/-- A list with commas is resolved item by item where each item turns into an operand. -/
theorem resolveArgs_alternates (hR : ∀ a t, R a t → ∃ t', resolveRef symbols r t = .ok t' ∧ S a t')
    (hS : ∀ a t, S a t → ∃ op, t.operand? = some op) {as : List α} {ts : List Token}
    (h : Alternates R IsComma as ts) : ∃ ts', resolveArgs symbols r ts = .ok ts' ∧ Alternates S IsComma as ts' := by
  obtain ⟨ts', hrefs, hts'⟩ := h.resolveRefs hR
  have hgroup : NoGroup ts' := by
    refine hts'.forall_mem (fun a _ t ht => ?_) fun t ht => ?_
    · obtain ⟨op, hop⟩ := hS a t ht
      exact noGroup_of_operand hop
    · rw [IsComma] at ht
      rw [ht]
      exact ⟨fun _ => nofun, fun _ => nofun⟩
  refine ⟨ts', bind_eq_ok.2 ⟨ts', hrefs, bind_eq_ok.2 ⟨ts', resolveSelects_noGroup hgroup, ?_⟩⟩, hts'⟩
  exact hts'.evaluate hS

theorem kind_ne_comma_of_operand? {t : Token} {op : Operand} (h : t.operand? = some op) : t.kind ≠ .comma := by
  intro hkind
  have hargs := argKind?_of_operand? h
  rw [Token.argKind?, hkind] at hargs
  cases hargs

theorem splitArgs_alternates (hitem : ∀ a t, S a t → t.kind ≠ .comma) {as : List α} {ts : List Token}
    (h : Alternates S IsComma as ts) : ∃ vs, splitArgs ts = .ok vs ∧ List.Forall₂ S as vs := by
  suffices hvalues : ∃ vs, ValuesOf vs ts ∧ List.Forall₂ S as vs by
    obtain ⟨vs, hvs, hall⟩ := hvalues
    exact ⟨vs, splitArgs_eq_ok.2 hvs, hall⟩
  induction h with
  | nil => exact ⟨[], Alternates.nil, .nil⟩
  | @one a t ht => exact ⟨[t], Alternates.one ⟨rfl, hitem a t ht⟩, .cons ht .nil⟩
  | @cons a a' t c as ts ht hc _ ih =>
    obtain ⟨vs, hvs, hall⟩ := ih
    have hkind : c.kind = .comma := by rw [Token.kind, hc, Lexeme.kind]
    cases hall with
    | cons hu hall => exact ⟨_, Alternates.cons ⟨rfl, hitem a t ht⟩ hkind hvs, .cons ht (.cons hu hall)⟩

/-! ## Instructions -/

/-- A token that spells an operand in its written form. -/
def Operand.SpelledBy (op : Operand) (t : Token) : Prop := t.operand? = some op ∧ t.raw = op.text

theorem ofName?_name (f : PseudoFunc) : PseudoFunc.ofName? f.name = some f := by cases f; rfl

/-- Where no function is hidden by a name, the tokens of the written form spell the operands. -/
theorem spelledBy_of_writtenAs (hfree : ∀ f : PseudoFunc, symbols.find? f.name = none) {op : Operand} {t : Token}
    (h : op.WrittenAs t) : ∃ t', resolveRef symbols r t = .ok t' ∧ op.SpelledBy t' := by
  obtain ⟨lexeme, raw, loc⟩ := t
  obtain ⟨rfl, rfl⟩ : lexeme = op.written ∧ raw = op.text := h
  cases op with
  | func f =>
    refine ⟨⟨.func f, (Operand.func f).text, loc⟩, ?_, rfl, rfl⟩
    have hmeaning : symbols.meaning? r f.name = some (.func f) := by
      rw [Symbols.meaning?, hfree f, ofName?_name]
      rfl
    unfold resolveRef
    rw [Operand.written]
    dsimp only
    rw [hmeaning]
  | reg n | imm v | ptr p m => exact ⟨_, rfl, rfl, rfl⟩

theorem checkArgs_spelledBy {m : Mnemonic} {ops : List Operand} (hops : Admitted m ops) (loc : Loc)
    {args vs : List Token} (hargs : splitArgs args = .ok vs) (hvs : List.Forall₂ Operand.SpelledBy ops vs) :
    checkArgs m loc args = .ok ops := by
  refine checkArgs_eq_ok_iff.2 ⟨vs, hargs, hvs.length_eq.symm.trans hops.length_eq.symm, ?_⟩
  unfold Admitted at hops
  clear hargs
  generalize m.entry.args = specs at hops
  generalize 0 = k
  induction hops generalizing vs k with
  | nil =>
    cases hvs
    exact .nil
  | cons hadmits _ ih =>
    cases hvs with
    | cons hspelled hvs =>
      rw [List.zip_cons_cons, List.zipIdx_cons]
      refine .cons (checkArg_eq_ok_iff.2 ⟨hspelled.1, hadmits.kind, ?_⟩) (ih hvs _)
      rw [hspelled.2]
      exact hadmits.value

/-- A statement with the tokens of the written form of an instruction. -/
def Instruction.StatedBy (i : Instruction) (st : Statement) : Prop :=
  st.mnemonic = i.mnemonic ∧ Alternates Operand.WrittenAs IsComma i.operands st.args

/-- Such a statement turns into the instruction that was written, but for the line. -/
theorem instruction_statedBy (hfree : ∀ f : PseudoFunc, symbols.find? f.name = none) {i : Instruction}
    (hi : i.Accepted) {st : Statement} (hst : i.StatedBy st) :
    ∃ args, resolveArgs symbols r st.args = .ok args ∧
      ({ st with args := args } : Statement).instruction = .ok { i with line := st.line } := by
  have hspell : ∀ (op : Operand) t, op.WrittenAs t → ∃ t', resolveRef symbols r t = .ok t' ∧ op.SpelledBy t' :=
    fun _ _ => spelledBy_of_writtenAs hfree
  have hoperand : ∀ (op : Operand) t, op.SpelledBy t → ∃ op, t.operand? = some op := fun op _ h => ⟨op, h.1⟩
  obtain ⟨args, hargs, halternates⟩ := resolveArgs_alternates hspell hoperand hst.2
  have hkind : ∀ (op : Operand) t, op.SpelledBy t → t.kind ≠ .comma := fun _ _ h => kind_ne_comma_of_operand? h.1
  obtain ⟨vs, hvs, hall⟩ := splitArgs_alternates hkind halternates
  have hcheck : checkArgs st.mnemonic st.loc args = .ok i.operands := by
    rw [hst.1]
    exact checkArgs_spelledBy hi.admitted st.loc hvs hall
  have hcode : encode st.mnemonic i.operands = some i.opcode := by
    rw [hst.1]
    exact hi.encode
  refine ⟨args, hargs, bind_eq_ok.2 ⟨i.operands, hcheck, ?_⟩⟩
  dsimp only
  rw [hcode, hst.1]
  rfl

end Avr

import Avr.Proofs.Expression.Grammar
import Avr.Proofs.Layout.Program
import Avr.Proofs.Opcode.Operands

/-!
# Argument lists that end in a name

* `Alone` : what stands in front of a value of its own: nothing, or a list that ends in a comma;
* `resolveSelects_opened`, `resolveSelects_unopened`, `resolveSelects_unclosed` : what comes of a selection;
* `resolveSelects_append`, `evaluate_append` : tokens at the end that take part in no group or run are left alone;
* `resolveArgs_alone` : a last argument that is one name turns into what the name stands for;
* `Statement.EndsInName`, `getLast?_operands` : the last operand of a statement that ends in a label.
-/

namespace Avr

/-- What may stand in front of a value of its own: nothing, or a list that ends in a comma. -/
def Alone (ts : List Token) : Prop := ts = [] ∨ ∃ us c, ts = us ++ [c] ∧ c.lexeme = .comma

/-! ## Names -/

theorem resolveRef_comma {s : Symbols} {r : Reference} {t u : Token} (ht : t.lexeme = .comma)
    (h : resolveRef s r t = .ok u) : u = t := by
  unfold resolveRef at h
  rw [ht] at h
  cases h
  rfl

theorem resolveRefs_alone {s : Symbols} {r : Reference} {pre ts : List Token} {t : Token} (hpre : Alone pre)
    (h : resolveRefs s r (pre ++ [t]) = .ok ts) :
    ∃ pre' t', ts = pre' ++ [t'] ∧ Alone pre' ∧ resolveRef s r t = .ok t' := by
  obtain ⟨pre', last, rfl, hpre', hlast⟩ := mapM_append_eq_ok.1 h
  obtain ⟨t', rfl, ht'⟩ := mapM_singleton_eq_ok.1 hlast
  refine ⟨pre', t', rfl, ?_, ht'⟩
  rcases hpre with rfl | ⟨us, c, rfl, hc⟩
  · rw [List.mapM_nil, pure_eq_ok] at hpre'
    exact .inl hpre'.symm
  · obtain ⟨us', last, rfl, -, hlast⟩ := mapM_append_eq_ok.1 hpre'
    obtain ⟨c', rfl, hc'⟩ := mapM_singleton_eq_ok.1 hlast
    exact .inr ⟨us', c', rfl, by rw [resolveRef_comma hc hc', hc]⟩

/-! ## Byte selections -/

def NoGroup (ts : List Token) : Prop := ∀ t ∈ ts, (∀ h, t.lexeme ≠ .select h) ∧ ∀ g, t.lexeme ≠ .sign g

theorem isSign_of_noGroup {t : Token} (h : ∀ g, t.lexeme ≠ .sign g) (g : Sign) : t.isSign g = false :=
  beq_false_of_ne (h g)

theorem closeGroup?_noGroup {ts : List Token} (h : NoGroup ts) (depth : Nat) : closeGroup? depth ts = none := by
  induction ts generalizing depth with
  | nil => rfl
  | cons t ts ih =>
    have ht := isSign_of_noGroup (h t List.mem_cons_self).2
    unfold closeGroup?
    rw [ht, ht, if_neg Bool.false_ne_true, if_neg Bool.false_ne_true,
      ih (fun u hu => h u (List.mem_cons_of_mem _ hu)), Option.map_none]

/-- A group that is closed is closed in front of tokens that take part in none. -/
theorem closeGroup?_append {tail : List Token} (htail : NoGroup tail) {ts inner rest : List Token} {depth : Nat}
    (h : closeGroup? depth (ts ++ tail) = some (inner, rest)) :
    ∃ rest', rest = rest' ++ tail ∧ rest'.length < ts.length := by
  induction ts generalizing depth inner with
  | nil =>
    rw [List.nil_append, closeGroup?_noGroup htail] at h
    cases h
  | cons t ts ih =>
    have step : ∀ {d : Nat}, (closeGroup? d (ts ++ tail)).map (fun p => (t :: p.1, p.2)) =
        some (inner, rest) → ∃ rest', rest = rest' ++ tail ∧ rest'.length < (t :: ts).length := by
      intro d hd
      obtain ⟨⟨i, r⟩, hr, he⟩ := Option.map_eq_some_iff.1 hd
      cases he
      obtain ⟨rest', hrest, hlen⟩ := ih hr
      exact ⟨rest', hrest, Nat.lt_succ_of_lt hlen⟩
    rw [List.cons_append, closeGroup?.eq_def] at h
    dsimp only at h
    split at h
    · exact step h
    · split at h
      · split at h
        · cases h
          exact ⟨ts, rfl, Nat.lt_succ_self _⟩
        · exact step h
      · exact step h

theorem resolveSelects_cons {t : Token} (ht : ∀ h, t.lexeme ≠ .select h) (ts : List Token) :
    resolveSelects (t :: ts) = (resolveSelects ts).map (t :: ·) := by
  rw [resolveSelects]
  split
  · next half hhalf => exact absurd hhalf (ht half)
  · cases resolveSelects ts <;> rfl

theorem resolveSelects_unopened {t : Token} {half : Half} (ht : t.lexeme = .select half) {ts : List Token}
    (h : ∀ u ∈ ts.head?, u.isSign .openParen = false) :
    resolveSelects (t :: ts) = .error (.located t.loc (.resolve (.malformedByteSelect t.raw))) := by
  rw [resolveSelects.eq_def]
  dsimp only
  rw [ht]
  cases ts with
  | nil => rfl
  | cons u us =>
    dsimp only
    rw [h u rfl, if_neg Bool.false_ne_true]

theorem resolveSelects_unclosed {t u : Token} {half : Half} (ht : t.lexeme = .select half)
    (hu : u.isSign .openParen = true) {us : List Token} (h : closeGroup? 0 us = none) :
    resolveSelects (t :: u :: us) = .error (.located t.loc (.resolve (.malformedByteSelect t.raw))) := by
  rw [resolveSelects.eq_def]
  dsimp only
  rw [ht]
  dsimp only
  rw [if_pos hu]
  split
  · rfl
  · next hsome =>
    rw [h] at hsome
    cases hsome

/-- What comes of a selection with a group behind it, and of the tokens behind the group. -/
theorem resolveSelects_opened {t u : Token} {half : Half} (ht : t.lexeme = .select half)
    (hu : u.isSign .openParen = true) {us inner rest : List Token} (h : closeGroup? 0 us = some (inner, rest)) :
    resolveSelects (t :: u :: us) =
      (selectByte t half inner).bind fun byte => (resolveSelects rest).map (byte :: ·) := by
  rw [resolveSelects.eq_def]
  dsimp only
  rw [ht]
  dsimp only
  rw [if_pos hu]
  split
  · next hnone =>
    rw [h] at hnone
    cases hnone
  · next hsome =>
    rw [h] at hsome
    cases hsome
    cases resolveSelects rest <;> rfl

/-- A byte selection that resolves has a group behind it that is closed. -/
theorem resolveSelects_select {t : Token} {half : Half} (ht : t.lexeme = .select half) {ts r : List Token}
    (h : resolveSelects (t :: ts) = .ok r) :
    ∃ u us inner rest byte r', ts = u :: us ∧ u.isSign .openParen = true ∧ closeGroup? 0 us = some (inner, rest) ∧
      selectByte t half inner = .ok byte ∧ resolveSelects rest = .ok r' ∧ r = byte :: r' := by
  rw [resolveSelects] at h
  split at h
  · next half' hhalf =>
    obtain rfl : half = half' := Lexeme.select.inj (ht.symm.trans hhalf)
    split at h
    · cases h
    · next u us =>
      split at h
      · next hu =>
        split at h
        · cases h
        · next inner rest hgroup =>
          obtain ⟨byte, hbyte, h⟩ := bind_eq_ok.1 h
          obtain ⟨r', hr', h⟩ := bind_eq_ok.1 h
          cases h
          exact ⟨u, us, inner, rest, byte, r', rfl, hu, hgroup, hbyte, hr', rfl⟩
      · cases h
  · next hother => exact absurd ht (hother half)

theorem resolveSelects_noGroup {ts : List Token} (h : NoGroup ts) : resolveSelects ts = .ok ts := by
  induction ts with
  | nil => rw [resolveSelects]
  | cons t ts ih =>
    rw [resolveSelects_cons (h t List.mem_cons_self).1, ih fun u hu => h u (List.mem_cons_of_mem _ hu)]
    rfl

/-- Tokens at the end that take part in no byte selection are left alone. By induction on the length of what stands in
front of them: a selection takes its whole group. -/
theorem resolveSelects_append {tail : List Token} (htail : NoGroup tail) {ts r : List Token}
    (h : resolveSelects (ts ++ tail) = .ok r) : ∃ r', r = r' ++ tail := by
  induction hn : ts.length using Nat.strongRecOn generalizing ts r with
  | ind n ih =>
    cases ts with
    | nil =>
      rw [List.nil_append, resolveSelects_noGroup htail] at h
      cases h
      exact ⟨[], rfl⟩
    | cons t ts =>
      rw [List.length_cons] at hn
      rw [List.cons_append] at h
      by_cases ht : ∃ half, t.lexeme = .select half
      · obtain ⟨half, ht⟩ := ht
        obtain ⟨u, us, inner, rest, byte, r', hts, hu, hgroup, -, hrest, rfl⟩ := resolveSelects_select ht h
        cases ts with
        | nil =>
          have hmem : u ∈ tail := by
            rw [List.nil_append] at hts
            rw [hts]
            exact List.mem_cons_self
          rw [isSign_of_noGroup (htail u hmem).2] at hu
          cases hu
        | cons x xs =>
          obtain ⟨rfl, rfl⟩ := List.cons.inj hts
          obtain ⟨rest', rfl, hlen⟩ := closeGroup?_append htail hgroup
          rw [List.length_cons] at hn
          obtain ⟨r'', rfl⟩ := ih rest'.length (by omega) hrest rfl
          exact ⟨byte :: r'', rfl⟩
      · rw [resolveSelects_cons fun half hhalf => ht ⟨half, hhalf⟩] at h
        obtain ⟨r', hr', rfl⟩ := map_eq_ok.1 h
        obtain ⟨r'', rfl⟩ := ih ts.length (by omega) hr' rfl
        exact ⟨t :: r'', rfl⟩

/-! ## Expressions -/

theorem evaluate_cons_other {t : Token} (ht : Expr.inAlphabet t = false) (ts : List Token) :
    Expr.evaluate (t :: ts) = (Expr.evaluate ts).map (t :: ·) := by
  rw [Expr.evaluate, if_neg (by rw [ht]; exact Bool.false_ne_true)]
  cases Expr.evaluate ts <;> rfl

/-- Tokens of which no expression is made are left as they are. -/
theorem evaluate_of_outside {ts : List Token} (h : ∀ t ∈ ts, Expr.inAlphabet t = false) : Expr.evaluate ts = .ok ts := by
  induction ts with
  | nil => rw [Expr.evaluate]
  | cons t ts ih =>
    rw [List.forall_mem_cons] at h
    rw [evaluate_cons_other h.1, ih h.2]
    rfl

theorem evaluate_cons_run {t : Token} (ht : Expr.inAlphabet t = true) {ts r : List Token}
    (h : Expr.evaluate (t :: ts) = .ok r) :
    ∃ v r', Expr.collapse t (ts.takeWhile Expr.inAlphabet) = .ok v ∧
      Expr.evaluate (ts.dropWhile Expr.inAlphabet) = .ok r' ∧ r = v :: r' := by
  rw [Expr.evaluate, if_pos ht] at h
  obtain ⟨v, hv, h⟩ := bind_eq_ok.1 h
  obtain ⟨r', hr', h⟩ := bind_eq_ok.1 h
  cases h
  exact ⟨v, r', hv, hr', rfl⟩

/-- A token that is part of no expression ends what stands in front of it. -/
theorem evaluate_append {c : Token} (hc : Expr.inAlphabet c = false) (us : List Token) {ts r : List Token}
    (h : Expr.evaluate (ts ++ c :: us) = .ok r) :
    ∃ r₁ r₂, r = r₁ ++ r₂ ∧ Expr.evaluate (c :: us) = .ok r₂ := by
  induction hn : ts.length using Nat.strongRecOn generalizing ts r with
  | ind n ih =>
    cases ts with
    | nil => exact ⟨[], r, rfl, h⟩
    | cons t ts =>
      rw [List.length_cons] at hn
      rw [List.cons_append] at h
      cases ht : Expr.inAlphabet t with
      | false =>
        rw [evaluate_cons_other ht] at h
        obtain ⟨r', hr', rfl⟩ := map_eq_ok.1 h
        obtain ⟨r₁, r₂, rfl, hr₂⟩ := ih ts.length (by omega) hr' rfl
        exact ⟨t :: r₁, r₂, rfl, hr₂⟩
      | true =>
        obtain ⟨v, r', -, hr', rfl⟩ := evaluate_cons_run ht h
        have hdrop : (ts ++ c :: us).dropWhile Expr.inAlphabet = ts.dropWhile Expr.inAlphabet ++ c :: us := by
          rw [List.dropWhile_append]
          split
          · next hempty => rw [List.isEmpty_iff.1 hempty, List.dropWhile_cons_of_neg (by rw [hc]; decide), List.nil_append]
          · rfl
        rw [hdrop] at hr'
        have hlen := (List.dropWhile_sublist (p := Expr.inAlphabet) (l := ts)).length_le
        obtain ⟨r₁, r₂, rfl, hr₂⟩ := ih _ (by omega) hr' rfl
        exact ⟨v :: r₁, r₂, rfl, hr₂⟩

theorem evaluateSingle_int {t : Token} {v : Int} (ht : t.lexeme = .int v) : Expr.evaluateSingle [t] = .ok v := by
  rw [Expr.evaluateSingle_eq, Expr.plain_binary, Expr.plain_unary_int ht]
  change ((Expr.plain (Expr.operators 1 v [])).bind _) = _
  rw [Expr.plain_operators_nil]
  rfl

theorem evaluate_int {t : Token} {v : Int} (ht : t.lexeme = .int v) : Expr.evaluate [t] = .ok [t] := by
  have hkind : t.kind = .int := by rw [Token.kind, ht, Lexeme.kind]
  have halpha : Expr.inAlphabet t = true := by rw [Expr.inAlphabet, hkind]; rfl
  rw [Expr.evaluate, if_pos halpha, List.takeWhile_nil, List.dropWhile_nil, Expr.evaluate, Expr.collapse,
    if_pos ⟨rfl, hkind⟩]
  rfl

theorem inAlphabet_comma {c : Token} (hc : c.lexeme = .comma) : Expr.inAlphabet c = false := by
  rw [Expr.inAlphabet, Token.kind, hc]
  rfl

/-! ## The last argument -/

/-- A last argument that is one name of a number turns into that number. -/
theorem resolveArgs_alone {s : Symbols} {r : Reference} {pre ts : List Token} {t : Token} {name : String} {v : Int}
    (hpre : Alone pre) (ht : t.lexeme = .ref name) (hv : s.meaning? r name = some (.int v))
    (h : resolveArgs s r (pre ++ [t]) = .ok ts) : ∃ pre' t', ts = pre' ++ [t'] ∧ t'.lexeme = .int v := by
  obtain ⟨us, hus, h⟩ := bind_eq_ok.1 h
  obtain ⟨us', hus', h⟩ := bind_eq_ok.1 h
  obtain ⟨pre', t', rfl, hpre', ht'⟩ := resolveRefs_alone hpre hus
  have hint : t'.lexeme = .int v := by
    unfold resolveRef at ht'
    rw [ht] at ht'
    dsimp only at ht'
    rw [hv] at ht'
    cases ht'
    rfl
  have hplain : ∀ {u : Token}, u.lexeme = .int v ∨ u.lexeme = .comma →
      (∀ h, u.lexeme ≠ .select h) ∧ ∀ g, u.lexeme ≠ .sign g := by
    intro u hu
    rcases hu with hu | hu <;> rw [hu] <;> exact ⟨fun _ => nofun, fun _ => nofun⟩
  rcases hpre' with rfl | ⟨ws, c, rfl, hc⟩
  · have hgroup : NoGroup [t'] := by
      intro u hu
      rw [List.mem_singleton.1 hu]
      exact hplain (.inl hint)
    rw [List.nil_append, resolveSelects_noGroup hgroup] at hus'
    cases hus'
    rw [evaluate_int hint] at h
    cases h
    exact ⟨[], t', rfl, hint⟩
  · have hgroup : NoGroup [c, t'] := by
      intro u hu
      rcases List.mem_cons.1 hu with rfl | hu
      · exact hplain (.inr hc)
      · rw [List.mem_singleton.1 hu]
        exact hplain (.inl hint)
    rw [List.append_assoc] at hus'
    obtain ⟨ws', rfl⟩ := resolveSelects_append hgroup hus'
    obtain ⟨r₁, r₂, rfl, hr₂⟩ := evaluate_append (inAlphabet_comma hc) [t'] h
    rw [evaluate_cons_other (inAlphabet_comma hc), evaluate_int hint] at hr₂
    cases hr₂
    exact ⟨r₁ ++ [c], t', by simp, hint⟩

theorem getLast?_of_checkArgs {m : Mnemonic} {loc : Loc} {pre : List Token} {t : Token} {v : Int} {ops : List Operand}
    (ht : t.lexeme = .int v) (h : checkArgs m loc (pre ++ [t]) = .ok ops) : ops.getLast? = some (.imm v) := by
  obtain ⟨ts, hts, hlen, hall⟩ := checkArgs_eq_ok_iff.1 h
  have hlast : ts.getLast? = some t := by rw [(splitArgs_eq_ok.1 hts).getLast?, List.getLast?_concat]
  rw [Catalog.Entry.arity] at hlen
  rw [List.forall₂_iff_get] at hall
  obtain ⟨hops, hget⟩ := hall
  rw [List.length_zipIdx, List.length_zip, hlen, Nat.min_self] at hops
  have hpos : 0 < ts.length := by
    rw [List.length_pos_iff]
    rintro rfl
    cases hlast
  have hcheck := hget (ts.length - 1) (by rw [List.length_zipIdx, List.length_zip]; omega) (by omega)
  rw [List.getLast?_eq_getElem?, List.getElem?_eq_getElem (by omega), Option.some.injEq] at hlast
  simp only [List.get_eq_getElem, List.getElem_zipIdx, List.getElem_zip, hlast] at hcheck
  have hop := (checkArg_eq_ok_iff.1 hcheck).1
  rw [Token.operand?, ht, Option.some.injEq] at hop
  rw [List.getLast?_eq_getElem?, List.getElem?_eq_getElem (by omega)]
  simp only [show ops.length - 1 = ts.length - 1 by omega, hop]

/-- The arguments end in one token, alone or behind a comma, that uses a name. -/
def Statement.EndsInName (s : Statement) (name : String) : Prop :=
  ∃ pre t, s.args = pre ++ [t] ∧ Alone pre ∧ t.lexeme = .ref name

/-- The last operand of a statement that ends in a label is the number that the label turns into. -/
theorem getLast?_operands {symbols : Symbols} {r : Reference} {s : Statement} {name : String} {target : Nat}
    {args : List Token} {i : Instruction} (hs : s.EndsInName name) (hname : symbols.label? name = some target)
    (hargs : resolveArgs symbols r s.args = .ok args) (hi : ({ s with args := args } : Statement).instruction = .ok i) :
    i.operands.getLast? = some (.imm (r.number target)) := by
  obtain ⟨pre, t, hpre, halone, ht⟩ := hs
  have hmeaning : symbols.meaning? r name = some (.int (r.number target)) := by
    rw [Symbols.meaning?, Symbols.label?_eq_some_iff.1 hname]
  rw [hpre] at hargs
  obtain ⟨pre', t', rfl, ht'⟩ := resolveArgs_alone halone ht hmeaning hargs
  obtain ⟨ops, hops, hi⟩ := bind_eq_ok.1 hi
  split at hi
  · cases hi
    exact getLast?_of_checkArgs ht' hops
  · cases hi

end Avr

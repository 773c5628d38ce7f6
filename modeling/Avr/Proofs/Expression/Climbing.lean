import Avr.Proofs.Expression.Arithmetic

/-!
# Precedence climbing reads the written form

* `plain` : what a reading comes to, without the proof that tokens were consumed, with one equation for each case of
  the reader;
* `Ends` : a rest of tokens at which operators of a level stop;
* `read_of_written` : a reader that meets a written tree computes it and goes on behind it;
* `readers_spell` : what a reader has consumed is the written form of a tree that comes to what was read.
-/

namespace Avr.Expr

/-! ## Readings without proofs -/

/-- What a reading comes to, without the proof that tokens were consumed. -/
def plain {P : List Token → Prop} (r : Except ExprError (Int × { rest : List Token // P rest })) :
    Except ExprError (Int × List Token) :=
  r.map fun p => (p.1, p.2.1)

theorem length_of_plain_unary {ts rest : List Token} {v : Int} (h : plain (unary ts) = .ok (v, rest)) :
    rest.length < ts.length := by
  unfold plain at h
  cases hu : unary ts with
  | error err => simp [hu, Except.map] at h
  | ok p =>
    simp only [hu, Except.map, Except.ok.injEq, Prod.mk.injEq] at h
    exact h.2 ▸ p.2.2

theorem length_of_plain_binary {level : Nat} {ts rest : List Token} {v : Int}
    (h : plain (binary level ts) = .ok (v, rest)) : rest.length < ts.length := by
  unfold plain at h
  cases hu : binary level ts with
  | error err => simp [hu, Except.map] at h
  | ok p =>
    simp only [hu, Except.map, Except.ok.injEq, Prod.mk.injEq] at h
    exact h.2 ▸ p.2.2

theorem plain_unary_int {t : Token} {v : Int} (h : t.lexeme = .int v) (ts : List Token) :
    plain (unary (t :: ts)) = .ok (v, ts) := by
  rw [unary]
  simp only [plain]
  split <;> simp_all [Except.map]

theorem plain_unary_group {t : Token} (h : t.lexeme = .sign .openParen) (ts : List Token) :
    plain (unary (t :: ts)) = (plain (binary 1 ts)).bind fun (v, rest) =>
      match rest with
      | u :: rest => if u.isSign .closeParen then .ok (v, rest) else .error .unbalancedParens
      | [] => .error .unbalancedParens := by
  rw [unary]
  split
  case h_2 =>
    simp only [plain]
    cases hb : binary 1 ts with
    | error err => rfl
    | ok p =>
      obtain ⟨v, ⟨_ | ⟨u, rest⟩, hrest⟩⟩ := p
      · rfl
      · simp only [bind, Except.bind, Except.map]
        cases u.isSign .closeParen <;> rfl
  all_goals simp_all

theorem plain_unary_op {t : Token} {o : UnaryOp} (h : t.lexeme = .sign o.sign) (ts : List Token) :
    plain (unary (t :: ts)) = (plain (unary ts)).bind fun (v, rest) => (o.apply v).map (·, rest) := by
  rw [unary]
  cases o with
  | not =>
    split
    case h_3 => cases unary ts <;> rfl
    all_goals simp_all [UnaryOp.sign]
  | complement =>
    split
    case h_4 => cases unary ts <;> rfl
    all_goals simp_all [UnaryOp.sign]
  | negate =>
    split
    case h_5 =>
      cases unary ts with
      | error err => rfl
      | ok p =>
        simp only [bind, Except.bind, plain, Except.map, UnaryOp.apply]
        cases checked (-p.1) <;> rfl
    all_goals simp_all [UnaryOp.sign]
  | plus =>
    split
    case h_6 => cases unary ts <;> rfl
    all_goals simp_all [UnaryOp.sign]

theorem plain_unary_ok {t : Token} {ts rest : List Token} {v : Int} (h : plain (unary (t :: ts)) = .ok (v, rest)) :
    (∃ n, t.lexeme = .int n) ∨ t.lexeme = .sign .openParen ∨ ∃ o : UnaryOp, t.lexeme = .sign o.sign := by
  rw [unary] at h
  split at h
  case h_1 v hv => exact .inl ⟨v, hv⟩
  case h_2 hv => exact .inr (.inl hv)
  case h_3 hv => exact .inr (.inr ⟨.not, hv⟩)
  case h_4 hv => exact .inr (.inr ⟨.complement, hv⟩)
  case h_5 hv => exact .inr (.inr ⟨.negate, hv⟩)
  case h_6 hv => exact .inr (.inr ⟨.plus, hv⟩)
  all_goals simp [plain, Except.map] at h

theorem plain_binary (level : Nat) (ts : List Token) :
    plain (binary level ts) = (plain (unary ts)).bind fun (v, rest) => plain (operators level v rest) := by
  rw [binary]
  cases hu : unary ts with
  | error err => rfl
  | ok p =>
    obtain ⟨v, rest, hrest⟩ := p
    simp only [bind, Except.bind, plain, Except.map]
    cases operators level v rest <;> rfl

theorem plain_operators_nil (level : Nat) (left : Int) : plain (operators level left []) = .ok (left, []) := by
  rw [operators]
  rfl

theorem plain_operators_cons (level : Nat) (left : Int) (t : Token) (ts : List Token) :
    plain (operators level left (t :: ts)) = (joint t).bind fun j =>
      match j with
      | .close => .ok (left, t :: ts)
      | .sum =>
        if BinaryOp.add.precedence < level then .ok (left, t :: ts)
        else (plain (binary (BinaryOp.add.precedence + 1) (t :: ts))).bind fun (right, rest) =>
          (BinaryOp.add.apply left right).bind fun v => plain (operators level v rest)
      | .op o =>
        if o.precedence < level then .ok (left, t :: ts)
        else (plain (binary (o.precedence + 1) ts)).bind fun (right, rest) =>
          (o.apply left right).bind fun v => plain (operators level v rest) := by
  rw [operators]
  cases joint t with
  | error err => rfl
  | ok j =>
    cases j with
    | close => rfl
    | sum =>
      simp only [bind, Except.bind]
      split
      · rfl
      · cases binary (BinaryOp.add.precedence + 1) (t :: ts) with
        | error err => rfl
        | ok p =>
          obtain ⟨right, rest, hrest⟩ := p
          simp only [plain, Except.map]
          cases BinaryOp.add.apply left right with
          | error err => rfl
          | ok v =>
            dsimp only
            cases operators level v rest <;> rfl
    | op o =>
      simp only [bind, Except.bind]
      split
      · rfl
      · cases binary (o.precedence + 1) ts with
        | error err => rfl
        | ok p =>
          obtain ⟨right, rest, hrest⟩ := p
          simp only [plain, Except.map]
          cases o.apply left right with
          | error err => rfl
          | ok v =>
            dsimp only
            cases operators level v rest <;> rfl

/-! ## Where operators stop -/

/-- Whether operators of a level stop before what stands there. -/
def Joint.Stops (level : Nat) : Joint → Prop
  | .close => True
  | .sum => BinaryOp.add.precedence < level
  | .op o => o.precedence < level

def Ends (level : Nat) : List Token → Prop
  | [] => True
  | t :: _ => ∃ j, joint t = .ok j ∧ j.Stops level

theorem Joint.Stops.mono {k level : Nat} {j : Joint} (h : j.Stops k) (hk : k ≤ level) : j.Stops level := by
  cases j with
  | close => trivial
  | sum => exact Nat.lt_of_lt_of_le h hk
  | op o => exact Nat.lt_of_lt_of_le h hk

theorem Ends.mono {k level : Nat} {ts : List Token} (h : Ends k ts) (hk : k ≤ level) : Ends level ts := by
  cases ts with
  | nil => trivial
  | cons t ts =>
    obtain ⟨j, hj, hs⟩ := h
    exact ⟨j, hj, hs.mono hk⟩

theorem joint_close {t : Token} (h : t.lexeme = .sign .closeParen) : joint t = .ok .close := by
  simp [joint, h]

theorem joint_op {t : Token} {o : BinaryOp} (h : t.lexeme = .sign (.op o)) : joint t = .ok (.op o) := by
  simp [joint, h]

theorem joint_sum {t : Token} (h : t.isSignedLiteral = true) : joint t = .ok .sum := by
  unfold joint
  have hint : t.int?.isSome = true := by
    unfold Token.isSignedLiteral at h
    simp only [Bool.and_eq_true] at h
    exact h.1
  unfold Token.int? at hint
  split at hint
  · next v hv => simp [hv, h]
  · simp at hint

theorem isSignedLiteral_of_joint {t : Token} (h : joint t = .ok .sum) : t.isSignedLiteral = true := by
  unfold joint at h
  split at h
  · split at h
    · assumption
    · simp at h
  all_goals simp at h

theorem lexeme_of_joint {t : Token} {o : BinaryOp} (h : joint t = .ok (.op o)) : t.lexeme = .sign (.op o) := by
  unfold joint at h
  split at h
  · split at h <;> simp at h
  · simp at h
  · simp only [Except.ok.injEq, Joint.op.injEq] at h
    subst h
    assumption
  · simp at h

theorem plain_operators_of_ends {level : Nat} {ts : List Token} (h : Ends level ts) (left : Int) :
    plain (operators level left ts) = .ok (left, ts) := by
  cases ts with
  | nil => exact plain_operators_nil level left
  | cons t ts =>
    obtain ⟨j, hj, hs⟩ := h
    rw [plain_operators_cons, hj]
    cases j with
    | close => rfl
    | sum => simp [Except.bind, show BinaryOp.add.precedence < level from hs]
    | op o => simp [Except.bind, show o.precedence < level from hs]

/-- No operator binds as tightly as the ones in front: what operators can go on with stops those. -/
theorem ends_of_plain_operators {level : Nat} {left : Int} {ts : List Token} {r : Int × List Token}
    (h : plain (operators level left ts) = .ok r) : Ends (tightest + 1) ts := by
  cases ts with
  | nil => trivial
  | cons t ts =>
    rw [plain_operators_cons] at h
    cases hj : joint t with
    | error err => simp [hj, Except.bind] at h
    | ok j =>
      refine ⟨j, hj, ?_⟩
      cases j with
      | close => trivial
      | sum => exact Nat.lt_succ_of_lt (precedence_lt_tightest .add)
      | op o => exact Nat.lt_succ_of_lt (precedence_lt_tightest o)

/-! ## Written trees are read -/

/-- What is read as an operand is computed, and the operators behind it follow. -/
theorem binary_of_unary {e : Tree} {ts : List Token}
    (h : ∀ rest, plain (unary (ts ++ rest)) = e.outcome.map (·, rest)) (level : Nat) (rest : List Token) :
    plain (binary level (ts ++ rest)) = e.outcome.bind fun v => plain (operators level v rest) := by
  rw [plain_binary, h]
  cases e.outcome <;> rfl

theorem unary_lit {t : Token} {v : Literal} (ht : t.lexeme = .int v.1) (rest : List Token) :
    plain (unary ([t] ++ rest)) = (Tree.lit v).outcome.map (·, rest) := by
  rw [List.singleton_append, plain_unary_int ht]
  rfl

theorem unary_group {e : Tree} {t u : Token} {ts : List Token} (ht : t.lexeme = .sign .openParen)
    (hu : u.lexeme = .sign .closeParen)
    (h : ∀ rest, plain (binary 1 (ts ++ u :: rest)) = e.outcome.bind fun v => plain (operators 1 v (u :: rest)))
    (rest : List Token) : plain (unary (t :: (ts ++ [u]) ++ rest)) = e.outcome.map (·, rest) := by
  have hend : Ends 1 (u :: rest) := ⟨.close, joint_close hu, trivial⟩
  rw [List.cons_append, plain_unary_group ht, List.append_assoc, List.singleton_append, h]
  cases e.outcome with
  | error err => rfl
  | ok v => simp [Except.bind, Except.map, plain_operators_of_ends hend, Token.isSign, hu]

theorem unary_op {o : UnaryOp} {e : Tree} {t : Token} {ts : List Token} (ht : t.lexeme = .sign o.sign)
    (h : ∀ rest, plain (unary (ts ++ rest)) = e.outcome.map (·, rest)) (rest : List Token) :
    plain (unary (t :: ts ++ rest)) = (Tree.unary o e).outcome.map (·, rest) := by
  rw [List.cons_append, plain_unary_op ht, h, Tree.outcome_unary]
  cases e.outcome <;> rfl

/-- An operator between two written trees is applied to what they come to. -/
theorem operators_step {k level : Nat} {o : BinaryOp} {r : Tree} {us rest : List Token} (a : Int)
    (stay : Except ExprError (Int × List Token)) (hk : k ≤ o.precedence) (hlevel : level ≤ o.precedence)
    (hrest : Ends (level + 1) rest)
    (h : plain (binary (o.precedence + 1) (us ++ rest)) =
      r.outcome.bind fun b => plain (operators (o.precedence + 1) b rest)) :
    (if o.precedence < k then stay
      else (plain (binary (o.precedence + 1) (us ++ rest))).bind fun (right, rest) =>
        (o.apply a right).bind fun v => plain (operators k v rest)) =
      (r.outcome.bind fun b => o.apply a b).bind fun v => plain (operators k v rest) := by
  rw [if_neg (Nat.not_lt.2 hk), h]
  cases r.outcome with
  | error err => rfl
  | ok b =>
    have hend : Ends (o.precedence + 1) rest := hrest.mono (Nat.succ_le_succ hlevel)
    simp [Except.bind, plain_operators_of_ends hend]

/-- A reader that meets a written tree computes it and goes on with the operators behind it. By induction on the
writing, for an operand with an operator in front and for operators of a level together. -/
theorem read_of_written {level : Nat} {e : Tree} {ts : List Token} (h : Written level e ts) :
    (tightest ≤ level → ∀ rest, plain (unary (ts ++ rest)) = e.outcome.map (·, rest)) ∧
    (∀ k ≤ level, ∀ rest, Ends (level + 1) rest →
      plain (binary k (ts ++ rest)) = e.outcome.bind fun v => plain (operators k v rest)) := by
  induction h with
  | lit ht => exact ⟨fun _ => unary_lit ht, fun k _ rest _ => binary_of_unary (unary_lit ht) k rest⟩
  | @group level e t u ts ht he hu ih =>
    have hgroup := unary_group (e := e) ht hu fun rest => ih.2 1 (Nat.le_refl 1) _ ⟨.close, joint_close hu, trivial⟩
    exact ⟨fun _ => hgroup, fun k _ rest _ => binary_of_unary hgroup k rest⟩
  | @unary level o e t ts ht he ih =>
    have hop := unary_op ht (ih.1 (Nat.le_refl _))
    exact ⟨fun _ => hop, fun k _ rest _ => binary_of_unary hop k rest⟩
  | @binary level o l r t ts us hlevel hl ht hr ihl ihr =>
    refine ⟨fun htight => ?_, fun k hk rest hrest => ?_⟩
    · have := precedence_lt_tightest o
      omega
    · have hkp : k ≤ o.precedence := Nat.le_trans hk hlevel
      have hnext : Ends (o.precedence + 1) (t :: (us ++ rest)) :=
        ⟨.op o, joint_op ht, Nat.lt_succ_self o.precedence⟩
      have hright := ihr.2 (o.precedence + 1) (Nat.le_refl _) rest (hrest.mono (by omega))
      rw [List.append_assoc, List.cons_append, ihl.2 k hkp _ hnext, Tree.outcome_binary]
      cases l.outcome with
      | error err => rfl
      | ok a =>
        change plain (operators k a _) = _
        rw [plain_operators_cons, joint_op ht]
        exact operators_step a _ hkp hlevel hrest hright
  | @sum level l r t ts us hlevel hl ht hr ihl ihr =>
    refine ⟨fun htight => ?_, fun k hk rest hrest => ?_⟩
    · have := precedence_lt_tightest .add
      omega
    · have hkp : k ≤ BinaryOp.add.precedence := Nat.le_trans hk hlevel
      have hnext : Ends (BinaryOp.add.precedence + 1) (t :: us ++ rest) :=
        ⟨.sum, joint_sum ht, Nat.lt_succ_self _⟩
      have hright := ihr.2 (BinaryOp.add.precedence + 1) (Nat.le_refl _) rest (hrest.mono (by omega))
      rw [List.append_assoc, ihl.2 k hkp _ hnext, Tree.outcome_binary]
      cases l.outcome with
      | error err => rfl
      | ok a =>
        change plain (operators k a _) = _
        rw [List.cons_append, plain_operators_cons, joint_sum ht]
        exact operators_step a _ hkp hlevel hrest hright

/-! ## What is read was written -/

def LiteralsFit (ts : List Token) : Prop := ∀ t ∈ ts, ∀ v, t.lexeme = .int v → fits v = true

theorem LiteralsFit.tail {t : Token} {ts : List Token} (h : LiteralsFit (t :: ts)) : LiteralsFit ts :=
  fun u hu => h u (List.mem_cons_of_mem t hu)

theorem LiteralsFit.suffix {us ts : List Token} (h : LiteralsFit (us ++ ts)) : LiteralsFit ts :=
  fun u hu => h u (List.mem_append_right us hu)

/-- What is read from `ts` up to `rest` is the written form, at a level, of a tree that comes to `v`. -/
def Spells (level : Nat) (ts rest : List Token) (v : Int) : Prop :=
  ∃ e us, ts = us ++ rest ∧ Written level e us ∧ e.outcome = .ok v

def UnarySpells (n : Nat) : Prop :=
  ∀ ts, ts.length = n → LiteralsFit ts → ∀ v rest, plain (unary ts) = .ok (v, rest) → Spells tightest ts rest v

/-- A reader of operands and operators spells on lists of a length, and stops where operators of its level do. -/
def BinarySpells (n : Nat) : Prop :=
  ∀ ts, ts.length = n → LiteralsFit ts → ∀ level ≤ tightest, ∀ v rest, plain (binary level ts) = .ok (v, rest) →
    Spells level ts rest v ∧ Ends level rest

/-- A reader of operators goes on with the written form of the tree on its left, on lists of a length. -/
def OperatorsSpell (n : Nat) : Prop :=
  ∀ ts, ts.length = n → LiteralsFit ts → ∀ level k, level ≤ k → ∀ l pre left, Written k l pre →
    l.outcome = .ok left → Ends (k + 1) ts → ∀ v rest, plain (operators level left ts) = .ok (v, rest) →
    Spells level (pre ++ ts) rest v ∧ Ends level rest

theorem spells_unary {t : Token} {ts rest : List Token} {o : UnaryOp} {v : Int} (ht : t.lexeme = .sign o.sign)
    (ih : ∀ w rest, plain (unary ts) = .ok (w, rest) → Spells tightest ts rest w)
    (h : plain (unary (t :: ts)) = .ok (v, rest)) : Spells tightest (t :: ts) rest v := by
  rw [plain_unary_op ht] at h
  cases hu : plain (unary ts) with
  | error err => simp [hu, Except.bind] at h
  | ok p =>
    obtain ⟨w, rest'⟩ := p
    obtain ⟨e, us, rfl, hw, he⟩ := ih w rest' hu
    simp only [hu, Except.bind] at h
    cases ho : o.apply w with
    | error err => simp [ho, Except.map] at h
    | ok v' =>
      simp only [ho, Except.map, Except.ok.injEq, Prod.mk.injEq] at h
      obtain ⟨rfl, rfl⟩ := h
      refine ⟨.unary o e, t :: us, rfl, .unary ht hw, ?_⟩
      rw [Tree.outcome_unary, he]
      exact ho

theorem spells_group {t : Token} {ts rest : List Token} {v : Int} (ht : t.lexeme = .sign .openParen)
    (ih : ∀ w rest, plain (binary 1 ts) = .ok (w, rest) → Spells 1 ts rest w)
    (h : plain (unary (t :: ts)) = .ok (v, rest)) : Spells tightest (t :: ts) rest v := by
  rw [plain_unary_group ht] at h
  cases hb : plain (binary 1 ts) with
  | error err => simp [hb, Except.bind] at h
  | ok p =>
    obtain ⟨w, rest'⟩ := p
    obtain ⟨e, us, rfl, hw, he⟩ := ih w rest' hb
    simp only [hb, Except.bind] at h
    split at h
    · next u rest'' =>
      split at h
      · next hu =>
        simp only [Except.ok.injEq, Prod.mk.injEq] at h
        obtain ⟨rfl, rfl⟩ := h
        exact ⟨e, t :: (us ++ [u]), by simp, .group ht hw (by simpa [Token.isSign] using hu), he⟩
      · simp at h
    · simp at h

theorem unarySpells {n : Nat} (hU : ∀ m < n, UnarySpells m) (hB : ∀ m < n, BinarySpells m) : UnarySpells n := by
  intro ts hlen hfit v rest h
  cases ts with
  | nil =>
    rw [unary] at h
    simp [plain, Except.map] at h
  | cons t ts =>
    have hlt : ts.length < n := by simp [← hlen]
    rcases plain_unary_ok h with ⟨w, hw⟩ | hopen | ⟨o, ho⟩
    · rw [plain_unary_int hw] at h
      simp only [Except.ok.injEq, Prod.mk.injEq] at h
      obtain ⟨rfl, rfl⟩ := h
      exact ⟨.lit ⟨w, hfit t List.mem_cons_self w hw⟩, [t], rfl, .lit hw, rfl⟩
    · exact spells_group hopen
        (fun w rest hr => (hB _ hlt ts rfl hfit.tail 1 (by decide) w rest hr).1) h
    · exact spells_unary ho (fun w rest hr => hU _ hlt ts rfl hfit.tail w rest hr) h

/-- One operator more: it is applied to the tree on its left and to what is read on its right, and the reader goes
on with their tree. -/
theorem spells_operator {n level : Nat} {o : BinaryOp} {l : Tree} {pre us rest : List Token} {left v : Int}
    (mid : List Token) (hO : ∀ m < n, OperatorsSpell m) (hus : us.length ≤ n) (hfit : LiteralsFit us) (hlevel : level ≤ o.precedence)
    (hl : l.outcome = .ok left)
    (hwrite : ∀ r vs, Written (o.precedence + 1) r vs → (∃ ws, us = vs ++ ws) → vs ≠ [] →
      Written o.precedence (.binary o l r) (pre ++ mid ++ vs))
    (hB : ∀ w rest, plain (binary (o.precedence + 1) us) = .ok (w, rest) →
      Spells (o.precedence + 1) us rest w ∧ Ends (o.precedence + 1) rest)
    (h : ((plain (binary (o.precedence + 1) us)).bind fun (right, rest) =>
      (o.apply left right).bind fun v => plain (operators level v rest)) = .ok (v, rest)) :
    Spells level (pre ++ mid ++ us) rest v ∧ Ends level rest := by
  cases hb : plain (binary (o.precedence + 1) us) with
  | error err => simp [hb, Except.bind] at h
  | ok p =>
    obtain ⟨right, rest'⟩ := p
    have hshort := length_of_plain_binary hb
    obtain ⟨⟨r, vs, rfl, hw, hr⟩, hend⟩ := hB right rest' hb
    simp only [hb, Except.bind] at h
    cases ho : o.apply left right with
    | error err => simp [ho] at h
    | ok w =>
      simp only [ho] at h
      have hvs : vs ≠ [] := by
        rintro rfl
        simp at hshort
      have hout : (Tree.binary o l r).outcome = .ok w := by
        rw [Tree.outcome_binary, hl, hr]
        exact ho
      have := hO rest'.length (by omega) rest' rfl hfit.suffix level o.precedence hlevel _ _ w
        (hwrite r vs hw ⟨rest', rfl⟩ hvs) hout hend v rest h
      simpa [List.append_assoc] using this

theorem operatorsSpell {n : Nat} (hB : ∀ m ≤ n, BinarySpells m) (hO : ∀ m < n, OperatorsSpell m) :
    OperatorsSpell n := by
  intro ts hlen hfit level k hk l pre left hw hl hend v rest h
  cases ts with
  | nil =>
    rw [plain_operators_nil] at h
    simp only [Except.ok.injEq, Prod.mk.injEq] at h
    obtain ⟨rfl, rfl⟩ := h
    exact ⟨⟨l, pre, rfl, hw.mono hk, hl⟩, trivial⟩
  | cons t ts =>
    obtain ⟨j, hj, hs⟩ := hend
    rw [plain_operators_cons, hj] at h
    have hstay : j.Stops level → Except.ok (ε := ExprError) (left, t :: ts) = .ok (v, rest) →
        Spells level (pre ++ t :: ts) rest v ∧ Ends level rest := by
      intro hstop hr
      simp only [Except.ok.injEq, Prod.mk.injEq] at hr
      obtain ⟨rfl, rfl⟩ := hr
      exact ⟨⟨l, pre, rfl, hw.mono hk, hl⟩, j, hj, hstop⟩
    cases j with
    | close => exact hstay trivial h
    | sum =>
      change (if BinaryOp.add.precedence < level then _ else _) = _ at h
      split at h
      · next hlt => exact hstay hlt h
      · next hle =>
        have hwrite : ∀ r vs, Written (BinaryOp.add.precedence + 1) r vs → (∃ ws, t :: ts = vs ++ ws) → vs ≠ [] →
            Written BinaryOp.add.precedence (.binary .add l r) (pre ++ [] ++ vs) := by
          rintro r vs hr ⟨ws, hws⟩ hne
          obtain ⟨u, vs, rfl⟩ := List.exists_cons_of_ne_nil hne
          obtain ⟨rfl, -⟩ := List.cons.inj hws
          rw [List.append_nil]
          exact .sum (Nat.le_refl _) (hw.mono (Nat.le_of_lt_succ hs)) (isSignedLiteral_of_joint hj) hr
        have := spells_operator [] hO (Nat.le_of_eq hlen) hfit (Nat.le_of_not_lt hle) hl hwrite
          (fun w rest hr => hB n (Nat.le_refl n) _ hlen hfit _ (precedence_lt_tightest .add) w rest hr) h
        rwa [List.append_nil] at this
    | op o =>
      change (if o.precedence < level then _ else _) = _ at h
      split at h
      · next hlt => exact hstay hlt h
      · next hle =>
        have hlt : ts.length < n := by simp [← hlen]
        have hwrite : ∀ r vs, Written (o.precedence + 1) r vs → (∃ ws, ts = vs ++ ws) → vs ≠ [] →
            Written o.precedence (.binary o l r) (pre ++ [t] ++ vs) := by
          intro r vs hr _ _
          rw [List.append_assoc, List.singleton_append]
          exact .binary (Nat.le_refl _) (hw.mono (Nat.le_of_lt_succ hs)) (lexeme_of_joint hj) hr
        have := spells_operator [t] hO (Nat.le_of_lt hlt) hfit.tail (Nat.le_of_not_lt hle) hl hwrite
          (fun w rest hr => hB _ (Nat.le_of_lt hlt) ts rfl hfit.tail _ (precedence_lt_tightest o) w rest hr) h
        rwa [List.append_assoc, List.singleton_append] at this

theorem binarySpells {n : Nat} (hU : UnarySpells n) (hO : ∀ m < n, OperatorsSpell m) : BinarySpells n := by
  intro ts hlen hfit level hlevel v rest h
  rw [plain_binary] at h
  cases hu : plain (unary ts) with
  | error err => simp [hu, Except.bind] at h
  | ok p =>
    obtain ⟨left, rest'⟩ := p
    have hshort := length_of_plain_unary hu
    obtain ⟨l, us, rfl, hw, hl⟩ := hU ts hlen hfit left rest' hu
    simp only [hu, Except.bind] at h
    exact hO rest'.length (by omega) rest' rfl hfit.suffix level tightest hlevel l us left hw hl
      (ends_of_plain_operators h) v rest h

/-- The three readers spell, on lists of every length. By induction on the length: an operand is read from a shorter
list or by a reader of a lower kind, and each kind of reader asks the one below at the same length. -/
theorem readers_spell (n : Nat) : UnarySpells n ∧ BinarySpells n ∧ OperatorsSpell n := by
  induction n using Nat.strong_induction_on with
  | _ n ih =>
    have hU : UnarySpells n := unarySpells (fun m hm => (ih m hm).1) (fun m hm => (ih m hm).2.1)
    have hB : BinarySpells n := binarySpells hU fun m hm => (ih m hm).2.2
    refine ⟨hU, hB, operatorsSpell (fun m hm => ?_) fun m hm => (ih m hm).2.2⟩
    rcases Nat.lt_or_eq_of_le hm with hlt | rfl
    · exact (ih m hlt).2.1
    · exact hB

end Avr.Expr

import Avr.Proofs.Expression.Grammar

/-!
# A signed literal behind an operand against a subtraction

* `factors` : what the literal is multiplied and divided by before anything is added, as it is read;
* `Exact` : of these quotients none is rounded, and no value is one whose negative alone has 64 bits;
* `operators_neg` : a term that begins with a literal comes to the negative of the one that begins with its magnitude;
* `Alike`, `readers_alike` : readings of two lists of which one has the literal, the other a minus sign and a number;
* `evaluateSingle_subtract` : such lists have the same outcome if the term is exact;
* `evaluateSingle_rounded` : they need not if a quotient is rounded.
-/

namespace Avr.Expr

/-! ## The term of a literal -/

/-- The binding strength of operators that a signed literal in operator position leaves to its own operand. -/
def termLevel : Nat := BinaryOp.add.precedence + 1

/-- The operators at the start of the tokens that bind more tightly than a sum, each with the value of its right
operand, up to the first that cannot be read. -/
def factors (ts : List Token) : List (BinaryOp × Int) :=
  match ts with
  | [] => []
  | t :: ts =>
    match joint t with
    | .ok (.op o) =>
      if o.precedence < termLevel then []
      else match binary (o.precedence + 1) ts with
        | .ok (v, ⟨rest, _⟩) => (o, v) :: factors rest
        | .error _ => []
    | _ => []
termination_by ts.length

/-- From `v` on no quotient is rounded, and no value has the magnitude `2 ^ 63`, which only a negative number of 64
bits can have. -/
def Exact : Int → List (BinaryOp × Int) → Prop
  | _, [] => True
  | v, (o, b) :: fs =>
    (o = .div → b ∣ v ∨ b = 0) ∧ (o.value v b).natAbs ≠ 2 ^ 63 ∧
      (fits (o.value v b) = true → Exact (o.value v b) fs)

instance decidableExact : (v : Int) → (fs : List (BinaryOp × Int)) → Decidable (Exact v fs)
  | _, [] => isTrue trivial
  | v, (o, b) :: fs =>
    have := decidableExact (o.value v b) fs
    inferInstanceAs (Decidable (_ ∧ _ ∧ _))

theorem factors_cons {t : Token} {ts rest : List Token} {o : BinaryOp} {v : Int} (ht : joint t = .ok (.op o))
    (ho : ¬ o.precedence < termLevel) (hv : plain (binary (o.precedence + 1) ts) = .ok (v, rest)) :
    factors (t :: ts) = (o, v) :: factors rest := by
  rw [factors, ht]
  dsimp only
  rw [if_neg ho]
  cases hb : binary (o.precedence + 1) ts with
  | error err =>
    rw [hb] at hv
    cases hv
  | ok r =>
    rw [hb] at hv
    cases hv
    rfl

theorem mul_or_div {o : BinaryOp} (h : ¬ o.precedence < termLevel) : o = .mul ∨ o = .div := by
  cases o with
  | mul => exact .inl rfl
  | div => exact .inr rfl
  | _ => exact absurd (by decide) h

theorem fits_neg {v : Int} (h : v.natAbs ≠ 2 ^ 63) : fits (-v) = fits v := by
  rw [Bool.eq_iff_iff, fits_iff, fits_iff]
  omega

theorem checked_neg {v : Int} (h : v.natAbs ≠ 2 ^ 63) : checked (-v) = (checked v).map (- ·) := by
  unfold checked
  rw [fits_neg h]
  split <;> rfl

theorem checked_ok {v w : Int} (h : checked v = .ok w) : w = v ∧ fits v = true := by
  unfold checked at h
  split at h
  · cases h
    exact ⟨rfl, ‹_›⟩
  · cases h

/-- Products and exact quotients take the sign of their left operand. -/
theorem apply_neg {o : BinaryOp} {v b : Int} (ho : o = .mul ∨ o = .div) (hdiv : o = .div → b ∣ v ∨ b = 0)
    (hv : (o.value v b).natAbs ≠ 2 ^ 63) : o.apply (-v) b = (o.apply v b).map (- ·) := by
  obtain rfl | rfl := ho
  · have hneg : -v * b = -(v * b) := Int.neg_mul v b
    rw [BinaryOp.apply, hneg]
    exact checked_neg hv
  · unfold BinaryOp.apply
    dsimp only
    by_cases hb : b = 0
    · rw [if_pos hb, if_pos hb]
      rfl
    · have hneg : (-v).fdiv b = -(v.fdiv b) := by
        obtain ⟨k, rfl⟩ := (hdiv rfl).resolve_right hb
        rw [← Int.mul_neg, Int.mul_fdiv_cancel_left _ hb, Int.mul_fdiv_cancel_left _ hb]
      rw [if_neg hb, if_neg hb, hneg]
      exact checked_neg hv

theorem value_of_apply {o : BinaryOp} {v b w : Int} (ho : o = .mul ∨ o = .div) (h : o.apply v b = .ok w) :
    w = o.value v b ∧ fits (o.value v b) = true := by
  obtain rfl | rfl := ho
  · exact checked_ok h
  · unfold BinaryOp.apply at h
    dsimp only at h
    split at h
    · cases h
    · exact checked_ok h

/-- A term that begins with a number comes to the negative of the term that begins with its negative. By induction on
the tokens behind the number: each factor or divisor takes at least one of them. -/
theorem operators_neg {ts : List Token} {v : Int} (h : Exact v (factors ts)) :
    plain (operators termLevel (-v) ts) = (plain (operators termLevel v ts)).map fun r => (-r.1, r.2) := by
  obtain ⟨len, hlen⟩ : ∃ len, ts.length = len := ⟨_, rfl⟩
  induction len using Nat.strong_induction_on generalizing ts v with
  | _ len ih =>
    cases ts with
    | nil =>
      rw [plain_operators_nil, plain_operators_nil]
      rfl
    | cons t ts =>
      rw [plain_operators_cons, plain_operators_cons]
      cases hj : joint t with
      | error err => rfl
      | ok j =>
        cases j with
        | close | sum => rfl
        | op o =>
          simp only [Except.bind]
          by_cases ho : o.precedence < termLevel
          · rw [if_pos ho, if_pos ho]
            rfl
          · rw [if_neg ho, if_neg ho]
            cases hb : plain (binary (o.precedence + 1) ts) with
            | error err => rfl
            | ok r =>
              obtain ⟨b, rest⟩ := r
              rw [factors_cons hj ho hb] at h
              obtain ⟨hdiv, hvalue, hrest⟩ := h
              have hop := mul_or_div ho
              dsimp only
              rw [apply_neg hop hdiv hvalue]
              cases hw : o.apply v b with
              | error err => rfl
              | ok w =>
                obtain ⟨rfl, hfits⟩ := value_of_apply hop hw
                have hshort := length_of_plain_binary hb
                exact ih rest.length (by simp only [← hlen, List.length_cons]; omega) (hrest hfits) rfl

/-! ## Two lists that differ in one place -/

/-- The last of the tokens ends an operand: an operator is due behind it. -/
def EndsOperand (ts : List Token) : Prop :=
  ∃ p, ts.getLast? = some p ∧ (p.int?.isSome = true ∨ p.isSign .closeParen = true)

theorem EndsOperand.tail {t u : Token} {ts : List Token} (h : EndsOperand (t :: u :: ts)) : EndsOperand (u :: ts) := by
  rwa [EndsOperand, List.getLast?_cons_cons] at h

theorem EndsOperand.exists_cons {t : Token} {ts : List Token} {g : Sign} (h : EndsOperand (t :: ts))
    (ht : t.lexeme = .sign g) (hg : g ≠ .closeParen) : ∃ u us, ts = u :: us ∧ EndsOperand ts := by
  cases ts with
  | nil =>
    obtain ⟨p, hp, hoperand⟩ := h
    cases hp
    rcases hoperand with hint | hclose
    · simp [Token.int?, ht] at hint
    · simp [Token.isSign, ht, hg] at hclose
  | cons u us => exact ⟨u, us, rfl, h.tail⟩

/-- Two readings come to the same error, to the same value with the same rest, or to the same value in front of `xs` in
the one list and of `ys` in the other. Right in front of them stop only operators that bind more tightly than a sum. -/
inductive Alike (xs ys : List Token) (level : Nat) :
    Except ExprError (Int × List Token) → Except ExprError (Int × List Token) → Prop
  | error (err : ExprError) : Alike xs ys level (.error err) (.error err)
  | behind (v : Int) (rest : List Token) : Alike xs ys level (.ok (v, rest)) (.ok (v, rest))
  | before (v : Int) (ts : List Token) (hlevel : ts = [] → BinaryOp.add.precedence < level)
    (hts : ts ≠ [] → EndsOperand ts) : Alike xs ys level (.ok (v, ts ++ xs)) (.ok (v, ts ++ ys))

namespace Alike

variable {xs ys : List Token} {k level : Nat}

theorem refl (r : Except ExprError (Int × List Token)) : Alike xs ys level r r := by
  cases r with
  | error err => exact .error err
  | ok r => exact .behind r.1 r.2

theorem bind {r r' : Except ExprError (Int × List Token)} (h : Alike xs ys k r r')
    {f : Int × List Token → Except ExprError (Int × List Token)}
    (hf : ∀ v ts, r = .ok (v, ts ++ xs) → (ts = [] → BinaryOp.add.precedence < k) → (ts ≠ [] → EndsOperand ts) →
      Alike xs ys level (f (v, ts ++ xs)) (f (v, ts ++ ys))) : Alike xs ys level (r.bind f) (r'.bind f) := by
  cases h with
  | error err => exact .error err
  | behind v rest => exact refl _
  | before v ts hlevel hts => exact hf v ts rfl hlevel hts

end Alike

section Readers

variable (xs ys : List Token)

def UnaryAlike (n : Nat) : Prop :=
  ∀ ts : List Token, ts.length = n → EndsOperand ts →
    Alike xs ys tightest (plain (unary (ts ++ xs))) (plain (unary (ts ++ ys)))

def BinaryAlike (n : Nat) : Prop :=
  ∀ ts : List Token, ts.length = n → EndsOperand ts → ∀ level,
    Alike xs ys level (plain (binary level (ts ++ xs))) (plain (binary level (ts ++ ys)))

def OperatorsAlike (n : Nat) : Prop :=
  ∀ ts : List Token, ts.length = n → (ts ≠ [] → EndsOperand ts) → ∀ level left,
    Alike xs ys level (plain (operators level left (ts ++ xs))) (plain (operators level left (ts ++ ys)))

variable {xs ys : List Token}

/-- Where no operand can start, the error does not depend on what follows. -/
theorem plain_unary_error {t : Token} (hint : ∀ v, t.lexeme ≠ .int v) (hopen : t.lexeme ≠ .sign .openParen)
    (hop : ∀ o : UnaryOp, t.lexeme ≠ .sign o.sign) : ∃ err, ∀ ts, plain (unary (t :: ts)) = .error err := by
  by_cases hclose : t.lexeme = .sign .closeParen
  · refine ⟨.unbalancedParens, fun ts => ?_⟩
    rw [unary]
    split <;> simp_all [plain, Except.map]
  · refine ⟨.missingOperand, fun ts => ?_⟩
    rw [unary]
    split
    case h_1 v hv => exact absurd hv (hint v)
    case h_2 hv => exact absurd hv hopen
    case h_3 hv => exact absurd hv (hop .not)
    case h_4 hv => exact absurd hv (hop .complement)
    case h_5 hv => exact absurd hv (hop .negate)
    case h_6 hv => exact absurd hv (hop .plus)
    case h_7 hv => exact absurd hv hclose
    case h_8 => rfl

theorem unaryAlike {n : Nat} (hU : ∀ m < n, UnaryAlike xs ys m) (hB : ∀ m < n, BinaryAlike xs ys m) :
    UnaryAlike xs ys n := by
  intro ts hlen hend
  obtain ⟨p, hp, -⟩ := id hend
  cases ts with
  | nil => cases hp
  | cons t ts =>
    have hlt : ts.length < n := by simp [← hlen]
    rw [List.cons_append, List.cons_append]
    by_cases hint : ∃ v, t.lexeme = .int v
    · obtain ⟨v, hv⟩ := hint
      rw [plain_unary_int hv, plain_unary_int hv]
      refine .before v ts (fun _ => precedence_lt_tightest .add) fun hne => ?_
      obtain ⟨u, us, rfl⟩ := List.exists_cons_of_ne_nil hne
      exact hend.tail
    · by_cases hopen : t.lexeme = .sign .openParen
      · obtain ⟨u, us, -, hts⟩ := hend.exists_cons hopen nofun
        rw [plain_unary_group hopen, plain_unary_group hopen]
        refine (hB ts.length hlt ts rfl hts 1).bind fun v vs _ hlevel hvs => ?_
        cases vs with
        | nil => exact absurd (hlevel rfl) (by decide)
        | cons w ws =>
          dsimp only [List.cons_append]
          split
          · refine .before v ws (fun _ => precedence_lt_tightest .add) fun hne => ?_
            obtain ⟨x, xs', rfl⟩ := List.exists_cons_of_ne_nil hne
            exact (hvs nofun).tail
          · exact .error _
      · by_cases hop : ∃ o : UnaryOp, t.lexeme = .sign o.sign
        · obtain ⟨o, ho⟩ := hop
          obtain ⟨u, us, -, hts⟩ := hend.exists_cons ho (by cases o <;> nofun)
          rw [plain_unary_op ho, plain_unary_op ho]
          refine (hU ts.length hlt ts rfl hts).bind fun v vs _ hlevel hvs => ?_
          dsimp only
          cases o.apply v with
          | error err => exact .error err
          | ok w => exact .before w vs hlevel hvs
        · obtain ⟨err, herr⟩ := plain_unary_error (not_exists.1 hint) hopen (not_exists.1 hop)
          rw [herr, herr]
          exact .error err

theorem binaryAlike {n : Nat} (hU : UnaryAlike xs ys n) (hO : ∀ m < n, OperatorsAlike xs ys m) :
    BinaryAlike xs ys n := by
  intro ts hlen hend level
  rw [plain_binary, plain_binary]
  refine (hU ts hlen hend).bind fun v vs hr _ hvs => ?_
  have hshort := length_of_plain_unary hr
  rw [List.length_append, List.length_append] at hshort
  exact hO vs.length (by omega) vs rfl hvs level v

theorem operatorsAlike {n : Nat} (hxs : ∀ level left,
      Alike xs ys level (plain (operators level left xs)) (plain (operators level left ys)))
    (hB : ∀ m ≤ n, BinaryAlike xs ys m) (hO : ∀ m < n, OperatorsAlike xs ys m) : OperatorsAlike xs ys n := by
  intro ts hlen hend level left
  cases ts with
  | nil => exact hxs level left
  | cons t ts =>
    have hstay : Alike xs ys level (.ok (left, t :: (ts ++ xs))) (.ok (left, t :: (ts ++ ys))) :=
      .before left (t :: ts) (fun h => absurd h (List.cons_ne_nil _ _)) fun _ => hend (List.cons_ne_nil _ _)
    -- behind the right operand the operators of the level go on, in a shorter list
    have hnext : ∀ (o : BinaryOp) (us : List Token), us.length ≤ n → EndsOperand us →
        Alike xs ys level
          ((plain (binary (o.precedence + 1) (us ++ xs))).bind fun r =>
            (o.apply left r.1).bind fun v => plain (operators level v r.2))
          ((plain (binary (o.precedence + 1) (us ++ ys))).bind fun r =>
            (o.apply left r.1).bind fun v => plain (operators level v r.2)) := by
      intro o us hus hoperand
      refine (hB us.length hus us rfl hoperand _).bind fun right vs hr _ hvs => ?_
      have hshort := length_of_plain_binary hr
      rw [List.length_append, List.length_append] at hshort
      dsimp only
      cases o.apply left right with
      | error err => exact .error err
      | ok v => exact hO vs.length (by omega) vs rfl hvs level v
    rw [List.cons_append, List.cons_append, plain_operators_cons, plain_operators_cons]
    cases hj : joint t with
    | error err => exact .error err
    | ok j =>
      simp only [Except.bind]
      cases j with
      | close => exact hstay
      | sum =>
        dsimp only
        split
        · exact hstay
        · exact hnext .add (t :: ts) hlen.le (hend (List.cons_ne_nil _ _))
      | op o =>
        dsimp only
        split
        · exact hstay
        · have hsign := lexeme_of_joint hj
          obtain ⟨u, us, -, hts⟩ := (hend (List.cons_ne_nil _ _)).exists_cons hsign (by intro h; cases h)
          have hshort : ts.length ≤ n := by simp [← hlen]
          exact hnext o ts hshort hts

/-- All readers go on alike in front of two lists at which operators do. By induction on the length of what is in front,
for the three readers together. -/
theorem readers_alike (hxs : ∀ level left,
      Alike xs ys level (plain (operators level left xs)) (plain (operators level left ys))) (n : Nat) :
    UnaryAlike xs ys n ∧ BinaryAlike xs ys n ∧ OperatorsAlike xs ys n := by
  induction n using Nat.strong_induction_on with
  | _ n ih =>
    have hU : UnaryAlike xs ys n := unaryAlike (fun m hm => (ih m hm).1) fun m hm => (ih m hm).2.1
    have hB : BinaryAlike xs ys n := binaryAlike hU fun m hm => (ih m hm).2.2
    refine ⟨hU, hB, operatorsAlike hxs (fun m hm => ?_) fun m hm => (ih m hm).2.2⟩
    rcases Nat.lt_or_eq_of_le hm with hlt | rfl
    · exact (ih m hlt).2.1
    · exact hB

/-- Lists that go on in one of two such ways behind an operand have the same outcome. -/
theorem evaluateSingle_alike (hxs : ∀ level left,
      Alike xs ys level (plain (operators level left xs)) (plain (operators level left ys))) {ts : List Token}
    (hts : EndsOperand ts) : evaluateSingle (ts ++ xs) = evaluateSingle (ts ++ ys) := by
  have halike := (readers_alike hxs ts.length).2.1 ts rfl hts 1
  rw [evaluateSingle_eq, evaluateSingle_eq]
  generalize plain (binary 1 (ts ++ xs)) = r, plain (binary 1 (ts ++ ys)) = r' at halike ⊢
  cases halike with
  | error err | behind v rest => rfl
  | before v us hlevel _ =>
    cases us with
    | nil => exact absurd (hlevel rfl) (by decide)
    | cons w ws => rfl

end Readers

/-! ## Subtractions -/

/-- Where an operator is due, a signed literal with an exact term stands for a subtraction. -/
theorem operators_subtract {t m u : Token} {n : Int} {after : List Token} (ht : t.lexeme = .int (-n))
    (hsigned : t.isSignedLiteral = true) (hm : m.lexeme = .sign (.op .sub)) (hu : u.lexeme = .int n)
    (hexact : Exact n (factors after)) (level : Nat) (left : Int) :
    Alike (t :: after) (m :: u :: after) level (plain (operators level left (t :: after)))
      (plain (operators level left (m :: u :: after))) := by
  by_cases hlevel : BinaryOp.add.precedence < level
  · have hsum : Ends level (t :: after) := ⟨.sum, joint_sum hsigned, hlevel⟩
    have hsub : Ends level (m :: u :: after) := ⟨.op .sub, joint_op hm, hlevel⟩
    rw [plain_operators_of_ends hsum, plain_operators_of_ends hsub]
    exact .before left [] (fun _ => hlevel) (absurd rfl)
  · have hneg := operators_neg hexact
    have hsum : plain (binary (BinaryOp.add.precedence + 1) (t :: after)) =
        (plain (binary (BinaryOp.sub.precedence + 1) (u :: after))).map fun r => (-r.1, r.2) := by
      rw [plain_binary, plain_binary, plain_unary_int ht, plain_unary_int hu]
      exact hneg
    have heq : plain (operators level left (t :: after)) = plain (operators level left (m :: u :: after)) := by
      rw [plain_operators_cons, plain_operators_cons, joint_sum hsigned, joint_op hm]
      simp only [Except.bind]
      rw [if_neg hlevel, if_neg (show ¬ BinaryOp.sub.precedence < level from hlevel), hsum]
      cases plain (binary (BinaryOp.sub.precedence + 1) (u :: after)) with
      | error err => rfl
      | ok r =>
        simp only [Except.map]
        rw [show BinaryOp.add.apply left (-r.1) = BinaryOp.sub.apply left r.1 from
          congrArg checked (Int.sub_eq_add_neg).symm]
    exact heq ▸ .refl _

/-- A signed literal right behind an integer or a closing parenthesis may be written as a minus sign and the number
without changing the outcome, provided that the term which begins with it is exact. -/
theorem evaluateSingle_subtract {before after : List Token} {p t m u : Token} {n : Nat}
    (hp : p.int?.isSome = true ∨ p.isSign .closeParen = true) (ht : t.lexeme = .int (-n))
    (hsigned : t.isSignedLiteral = true) (hm : m.lexeme = .sign (.op .sub)) (hu : u.lexeme = .int n)
    (hexact : Exact n (factors after)) :
    evaluateSingle (before ++ p :: t :: after) = evaluateSingle (before ++ p :: m :: u :: after) := by
  have hend : EndsOperand (before ++ [p]) := ⟨p, List.getLast?_concat, hp⟩
  rw [List.append_cons before p (t :: after), List.append_cons before p (m :: u :: after)]
  exact evaluateSingle_alike (operators_subtract ht hsigned hm hu hexact) hend

def number (v : Int) : Token := Token.ofInt v ⟨1, 1⟩

def symbol (g : Sign) : Token := signToken ⟨1, 1⟩ g

/-- In `(7) -6*4/8 <= 5` the quotient is exact. -/
theorem evaluateSingle_subtract_quotient :
    (number (-6)).isSignedLiteral = true ∧
      Exact 6 (factors [symbol (.op .mul), number 4, symbol (.op .div), number 8, symbol (.op .le), number 5]) ∧
      evaluateSingle [symbol .openParen, number 7, symbol .closeParen, number (-6), symbol (.op .mul), number 4,
        symbol (.op .div), number 8, symbol (.op .le), number 5] = .ok 1 ∧
      evaluateSingle [symbol .openParen, number 7, symbol .closeParen, symbol (.op .sub), number 6, symbol (.op .mul),
        number 4, symbol (.op .div), number 8, symbol (.op .le), number 5] = .ok 1 := by
  have hsigned : (number (-6)).isSignedLiteral = true := by decide +kernel
  have hfactors : factors [symbol (.op .mul), number 4, symbol (.op .div), number 8, symbol (.op .le), number 5] =
      [(.mul, 4), (.div, 8)] := by cbv
  have hexact : Exact 6 (factors [symbol (.op .mul), number 4, symbol (.op .div), number 8, symbol (.op .le),
      number 5]) := by
    rw [hfactors]
    decide
  have hone : evaluateSingle [symbol .openParen, number 7, symbol .closeParen, number (-6), symbol (.op .mul), number 4,
      symbol (.op .div), number 8, symbol (.op .le), number 5] = .ok 1 := by cbv
  have heq : evaluateSingle ([symbol .openParen, number 7] ++ symbol .closeParen :: number (-6) ::
        [symbol (.op .mul), number 4, symbol (.op .div), number 8, symbol (.op .le), number 5]) =
      evaluateSingle ([symbol .openParen, number 7] ++ symbol .closeParen :: symbol (.op .sub) :: number 6 ::
        [symbol (.op .mul), number 4, symbol (.op .div), number 8, symbol (.op .le), number 5]) :=
    evaluateSingle_subtract (n := 6) (.inr rfl) rfl hsigned rfl rfl hexact
  exact ⟨hsigned, hexact, hone, heq.symm.trans hone⟩

/-- `7 -3/2` rounds minus three halves down, `7 - 3/2` three halves; and minus two times `2 ^ 62` has 64 bits, which two
times `2 ^ 62` has not. -/
theorem evaluateSingle_rounded :
    evaluateSingle [number 7, number (-3), symbol (.op .div), number 2] = .ok 5 ∧
      evaluateSingle [number 7, symbol (.op .sub), number 3, symbol (.op .div), number 2] = .ok 6 ∧
      evaluateSingle [number 0, number (-2), symbol (.op .mul), number (2 ^ 62)] = .ok (-2 ^ 63) ∧
      evaluateSingle [number 0, symbol (.op .sub), number 2, symbol (.op .mul), number (2 ^ 62)] = .error .overflow := by
  refine ⟨?_, ?_, ?_, ?_⟩ <;> cbv

end Avr.Expr

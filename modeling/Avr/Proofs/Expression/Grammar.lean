import Avr.Proofs.Expression.Climbing

/-!
# The evaluator computes the operator grammar

* `evaluateSingle_of_written` : a run that spells a tree comes to the outcome of the tree;
* `written_of_evaluateSingle` : a run that comes to a number spells a tree with that value;
* `evaluateSingle_grammar` : both, with the outcome told node by node.
-/

namespace Avr.Expr

theorem evaluateSingle_eq (ts : List Token) :
    evaluateSingle ts = (plain (binary 1 ts)).bind fun (v, rest) =>
      match rest with
      | [] => .ok v
      | t :: _ => .error (if t.isSign .closeParen then .unbalancedParens else .unexpectedToken t.raw) := by
  unfold evaluateSingle
  cases binary 1 ts with
  | error err => rfl
  | ok p =>
    obtain ⟨v, ⟨_ | ⟨t, rest⟩, hrest⟩⟩ := p <;> rfl

theorem evaluateSingle_of_written {e : Tree} {ts : List Token} (h : Written 1 e ts) :
    evaluateSingle ts = e.outcome := by
  have hread := (read_of_written h).2 1 (Nat.le_refl 1) [] trivial
  rw [List.append_nil] at hread
  rw [evaluateSingle_eq, hread]
  cases e.outcome with
  | error err => rfl
  | ok v =>
    change (plain (operators 1 v [])).bind _ = _
    rw [plain_operators_nil]
    rfl

theorem written_of_evaluateSingle {ts : List Token} {v : Int} (hfit : LiteralsFit ts)
    (h : evaluateSingle ts = .ok v) : ∃ e, Written 1 e ts ∧ e.outcome = .ok v := by
  rw [evaluateSingle_eq] at h
  cases hb : plain (binary 1 ts) with
  | error err => simp [hb, Except.bind] at h
  | ok p =>
    obtain ⟨w, rest⟩ := p
    obtain ⟨⟨e, us, hts, hw, he⟩, -⟩ := (readers_spell ts.length).2.1 ts rfl hfit 1 (by decide) w rest hb
    simp only [hb, Except.bind] at h
    split at h
    · simp only [Except.ok.injEq] at h
      subst h
      rw [List.append_nil] at hts
      exact ⟨e, hts ▸ hw, he⟩
    · simp at h

/-- The evaluator computes the operator grammar. A run that spells a tree, with parentheses where the tree differs
from precedence and order or anywhere else, comes to a number just if no node has a fault, and then to the value of
the tree over unbounded integers; else it fails with the fault of the first node that has one. Whatever run comes to
a number spells a tree. -/
theorem evaluateSingle_grammar :
    (∀ (e : Tree) (ts : List Token), Written 1 e ts →
      (∀ v, evaluateSingle ts = .ok v ↔ (∀ n ∈ e.nodes, n.fault? = none) ∧ v = e.value) ∧
      (∀ err, evaluateSingle ts = .error err ↔ e.nodes.findSome? Tree.fault? = some err)) ∧
    (∀ (e : Tree) (loc : Loc), Written 1 e (e.write loc 1)) ∧
    (∀ (ts : List Token) (v : Int), LiteralsFit ts → evaluateSingle ts = .ok v →
      ∃ e, Written 1 e ts ∧ e.outcome = .ok v) := by
  refine ⟨fun e ts h => ⟨fun v => ?_, fun err => ?_⟩, fun e loc => written_write loc 1 e,
    fun ts v hfit h => written_of_evaluateSingle hfit h⟩
  · rw [evaluateSingle_of_written h, Tree.outcome_eq_ok_iff]
  · rw [evaluateSingle_of_written h, Tree.outcome_eq_error_iff]

/-- The run `7 -3*(2)`, in which the signed literal stands where an operator is due. -/
def signedRun : List Token :=
  [⟨.int 7, "7", ⟨1, 1⟩⟩, ⟨.int (-3), "-3", ⟨1, 3⟩⟩, ⟨.sign (.op .mul), "*", ⟨1, 5⟩⟩, ⟨.sign .openParen, "(", ⟨1, 6⟩⟩,
    ⟨.int 2, "2", ⟨1, 7⟩⟩, ⟨.sign .closeParen, ")", ⟨1, 8⟩⟩]

def signedTree : Tree := .binary .add (.lit ⟨7, rfl⟩) (.binary .mul (.lit ⟨-3, rfl⟩) (.lit ⟨2, rfl⟩))

theorem written_signedRun : Written 1 signedTree signedRun :=
  @Written.sum _ _ _ _ [_] _ (by decide) (.lit rfl) (by decide)
    (@Written.binary _ _ _ _ _ [_] [_, _, _] (by decide) (.lit rfl) rfl
      (@Written.group _ _ _ _ [_] rfl (.lit rfl) rfl))

theorem evaluateSingle_grammar_signed :
    Written 1 signedTree signedRun ∧ LiteralsFit signedRun ∧ evaluateSingle signedRun = .ok 1 ∧
      ∃ e, Written 1 e signedRun ∧ e.outcome = .ok 1 := by
  have hfit : LiteralsFit signedRun := by
    intro t ht v hv
    simp only [signedRun, List.mem_cons, List.not_mem_nil, or_false] at ht
    rcases ht with rfl | rfl | rfl | rfl | rfl | rfl <;> simp_all <;> subst hv <;> decide
  have hone : evaluateSingle signedRun = .ok 1 :=
    ((evaluateSingle_grammar.1 _ _ written_signedRun).1 1).2 ⟨by decide, rfl⟩
  exact ⟨written_signedRun, hfit, hone, evaluateSingle_grammar.2.2 _ 1 hfit hone⟩

end Avr.Expr

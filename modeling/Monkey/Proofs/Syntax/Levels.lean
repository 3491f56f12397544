import Monkey.Proofs.Syntax.Grammar

/-! # Levels of binding power and strata

The parser knows a level below which it stops, the grammar a stratum of
expressions. An expression read at a level is one of the stratum above that
level, and an operator binds as tightly as the stratum that it forms.
-/

namespace Monkey

/-- The loosest stratum of the expressions that are read at a level. -/
def Precedence.above : Precedence → Stratum
  | lowest => .equality
  | equals => .comparison
  | lessGreater => .sum
  | sum => .product
  | product | unary | call => .negation

namespace Precedence

variable {level : Precedence} {op : BinaryOp} {k : Token.Kind} {σ : Stratum}

theorem above_le_negation (level : Precedence) : level.above.rank ≤ Stratum.negation.rank := by
  cases level <;> decide

theorem above_le_succ (level : Precedence) : level.above.rank ≤ level.rank + 1 := by
  cases level <;> decide

theorem rank_ofKind_token (op : BinaryOp) : (ofKind op.token).rank = op.stratum.rank := by
  cases op <;> rfl

theorem stratum_lt_above (op : BinaryOp) : op.stratum < (ofKind op.token).above := by
  cases op <;> decide

theorem above_le_stratum (h : level < ofKind op.token) :
    level.above.rank ≤ op.stratum.rank := by
  have hsucc := above_le_succ level
  have hlt := lt_iff.1 h
  rw [rank_ofKind_token] at hlt
  omega

theorem lt_of_above_le (h : level.above.rank ≤ op.stratum.rank) : level < ofKind op.token := by
  revert h
  cases level <;> cases op <;> decide

theorem lt_call (h : level ≠ call) : level < ofKind .lparen := by
  revert h
  cases level <;> decide

theorem rank_le_call (k : Token.Kind) : (ofKind k).rank ≤ Stratum.call.rank := by
  unfold ofKind
  split <;> decide

theorem not_lowest_lt : ¬ lowest < ofKind k ↔ (ofKind k).rank = 0 := by
  rw [lt_iff, show lowest.rank = 0 from rfl]
  omega

end Precedence

theorem BinaryOp.ofKind?_token (op : BinaryOp) : ofKind? op.token = some op := by
  cases op <;> rfl

theorem BinaryOp.eq_token {k : Token.Kind} {op : BinaryOp} (h : ofKind? k = some op) :
    k = op.token := by
  unfold ofKind? at h
  split at h <;> cases h <;> rfl

/-- A token continues an expression or ends its statement if it binds, or is a semicolon. -/
theorem Token.Kind.mem_continuing {k : Token.Kind} :
    k ∈ continuing ↔ Precedence.lowest < Precedence.ofKind k ∨ k = .semicolon := by
  cases k <;> decide

/-- An expression of a stratum is one of every looser stratum. -/
theorem Derives.weaken {σ τ : Stratum} {ts : List Token} {e : Expr}
    (h : Derives (.expr τ e) ts) (hle : σ.rank ≤ τ.rank) : Derives (.expr σ e) ts := by
  rcases Nat.lt_or_eq_of_le hle with hlt | heq
  · exact .tighter hlt h
  · have hσ : σ = τ := by
      cases σ <;> cases τ <;> first | rfl | cases heq
    exact hσ ▸ h

end Monkey

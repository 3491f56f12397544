import Monkey.Program.Basic
import Monkey.Token.Kind

/-! # Precedence

How tightly operators bind, from loosest to tightest, and the operator that a
token stands for between operands.
-/

namespace Monkey

/-- Levels of binding power, loosest first. -/
inductive Precedence
  | lowest
  | equals
  | lessGreater
  | sum
  | product
  | unary
  | call
  deriving DecidableEq, Repr

namespace Precedence

/-- The place of a level in the order, from 0 for the loosest. -/
def rank : Precedence → Nat
  | lowest => 0
  | equals => 1
  | lessGreater => 2
  | sum => 3
  | product => 4
  | unary => 5
  | call => 6

instance : LT Precedence where
  lt p q := p.rank < q.rank

instance (p q : Precedence) : Decidable (p < q) :=
  inferInstanceAs (Decidable (p.rank < q.rank))

theorem lt_iff {p q : Precedence} : p < q ↔ p.rank < q.rank := Iff.rfl

/-- The binding power of a token after an operand; a token that is no operator has none. -/
def ofKind : Token.Kind → Precedence
  | .eq | .notEq => equals
  | .lt | .gt => lessGreater
  | .plus | .minus => sum
  | .asterisk | .slash => product
  | .lparen => call
  | _ => lowest

end Precedence

/-- The operator that a token stands for between operands. -/
def BinaryOp.ofKind? : Token.Kind → Option BinaryOp
  | .plus => some add
  | .minus => some sub
  | .asterisk => some mul
  | .slash => some div
  | .lt => some lt
  | .gt => some gt
  | .eq => some eq
  | .notEq => some notEq
  | _ => none

end Monkey

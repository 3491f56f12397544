import Monkey.Value.Basic

/-! # Operators on values

An operation is chosen by an operator and the kinds of its operands; where
there is none, the operator is unsupported. Arithmetic is exact: a result that
is no 64-bit integer is an overflow, and division rounds down.
-/

namespace Monkey

/-- An operation on one operand. -/
abbrev UnaryOperation := Value → Except Fault Value

/-- An operation on two operands. -/
abbrev BinaryOperation := Value → Value → Except Fault Value

namespace UnaryOp

/-- The fault of an operator that is not defined on its operand. -/
def unsupported (op : UnaryOp) (operand : Value) : Fault :=
  .unsupported op.symbol [operand.kind]

/-- The negative of an integer. -/
def negate : UnaryOperation
  | .int n =>
    match Integer.ofInt? (-n.toInt) with
    | some m => .ok (.int m)
    | none => .error (.overflow neg.symbol)
  | v => .error (neg.unsupported v)

/-- The other truth value. -/
def complement : UnaryOperation
  | .bool b => .ok (.bool !b)
  | v => .error (not.unsupported v)

/-- The operation of an operator on an operand of this kind. -/
def operation? : UnaryOp → Value.Kind → Option UnaryOperation
  | neg, .integer => some negate
  | not, .boolean => some complement
  | _, _ => none

/-- Applies an operator to a value. -/
def apply (op : UnaryOp) (operand : Value) : Except Fault Value :=
  match op.operation? operand.kind with
  | some operation => operation operand
  | none => .error (op.unsupported operand)

end UnaryOp

namespace BinaryOp

/-- The fault of an operator that is not defined on its operands. -/
def unsupported (op : BinaryOp) (left right : Value) : Fault :=
  .unsupported op.symbol [left.kind, right.kind]

/-- A whole number as the result of an operator. -/
def exact (op : BinaryOp) (n : Int) : Except Fault Value :=
  match Integer.ofInt? n with
  | some m => .ok (.int m)
  | none => .error (.overflow op.symbol)

/-- An operation on two integers. -/
def onIntegers (op : BinaryOp) (f : Int → Int → Except Fault Value) : BinaryOperation
  | .int m, .int n => f m.toInt n.toInt
  | left, right => .error (op.unsupported left right)

/-- An operation on two truth values. -/
def onBooleans (op : BinaryOp) (f : Bool → Bool → Bool) : BinaryOperation
  | .bool a, .bool b => .ok (.bool (f a b))
  | left, right => .error (op.unsupported left right)

/-- The first string followed by the second. -/
def concatenate : BinaryOperation
  | .str s, .str t => .ok (.str (s ++ t))
  | left, right => .error (add.unsupported left right)

/-- The quotient rounded down. -/
def quotient (m n : Int) : Except Fault Value :=
  if n = 0 then .error .divisionByZero else div.exact (m.fdiv n)

/-- The operation of an operator on operands of these kinds. -/
def operation? : BinaryOp → Value.Kind → Value.Kind → Option BinaryOperation
  | add, .integer, .integer => some (add.onIntegers fun m n => add.exact (m + n))
  | sub, .integer, .integer => some (sub.onIntegers fun m n => sub.exact (m - n))
  | mul, .integer, .integer => some (mul.onIntegers fun m n => mul.exact (m * n))
  | div, .integer, .integer => some (div.onIntegers quotient)
  | lt, .integer, .integer => some (lt.onIntegers fun m n => .ok (.bool (m < n)))
  | gt, .integer, .integer => some (gt.onIntegers fun m n => .ok (.bool (m > n)))
  | eq, .integer, .integer => some (eq.onIntegers fun m n => .ok (.bool (m = n)))
  | notEq, .integer, .integer => some (notEq.onIntegers fun m n => .ok (.bool (m ≠ n)))
  | eq, .boolean, .boolean => some (eq.onBooleans (· == ·))
  | notEq, .boolean, .boolean => some (notEq.onBooleans (· != ·))
  | eq, .integer, .boolean | eq, .boolean, .integer => some fun _ _ => .ok (.bool false)
  | notEq, .integer, .boolean | notEq, .boolean, .integer => some fun _ _ => .ok (.bool true)
  | add, .string, .string => some concatenate
  | _, _, _ => none

/-- Applies an operator to two values. -/
def apply (op : BinaryOp) (left right : Value) : Except Fault Value :=
  match op.operation? left.kind right.kind with
  | some operation => operation left right
  | none => .error (op.unsupported left right)

end BinaryOp

end Monkey

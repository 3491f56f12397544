import Monkey.Value.Operator

/-! # Operators in machine arithmetic

A machine computes in 64 bits: where the exact result of an operation does not fit, the
result wraps around, and the machine can say so. The operators ask it, and refuse such a
result. Division is put together from the truncated quotient, the remainder and a
correction by one; the last two are taken as they are, and stop the machine where they
have no result in 64 bits.
-/

namespace Monkey

/-- Why a machine gives no result. -/
inductive Interrupt
  | fault (e : Fault)
  /-- An operation that was not checked had no result in 64 bits. -/
  | trap
  deriving DecidableEq, Repr

namespace Integer

/-- The sum, unless it wraps. -/
def add? (m n : Integer) : Option Integer :=
  if m.toBitVec.saddOverflow n.toBitVec then none else some (m + n)

/-- The difference, unless it wraps. -/
def sub? (m n : Integer) : Option Integer :=
  if m.toBitVec.ssubOverflow n.toBitVec then none else some (m - n)

/-- The product, unless it wraps. -/
def mul? (m n : Integer) : Option Integer :=
  if m.toBitVec.smulOverflow n.toBitVec then none else some (m * n)

/-- The negative, unless it wraps. -/
def neg? (m : Integer) : Option Integer :=
  if m.toBitVec.negOverflow then none else some (-m)

/-- The quotient rounded towards zero, unless it wraps or there is none. -/
def div? (m n : Integer) : Option Integer :=
  if n = 0 ∨ m = Int64.minValue ∧ n = -1 then none else some (m / n)

/-- What the quotient rounded towards zero leaves, where there is such a quotient. -/
def rem? (m n : Integer) : Option Integer :=
  if n = 0 ∨ m = Int64.minValue ∧ n = -1 then none else some (m % n)

/-- A result that was checked: there may be none. -/
def checked (op : String) : Option Integer → Except Interrupt Integer
  | some n => .ok n
  | none => .error (.fault (.overflow op))

/-- A result that was not checked. -/
def unchecked : Option Integer → Except Interrupt Integer
  | some n => .ok n
  | none => .error .trap

/-- The quotient rounded down: one less than towards zero if it is negative and not exact. -/
def floorDivide (m n : Integer) : Except Interrupt Integer :=
  if n = 0 then
    .error (.fault .divisionByZero)
  else do
    let quotient ← checked BinaryOp.div.symbol (m.div? n)
    let remainder ← unchecked (m.rem? n)
    if remainder ≠ 0 ∧ ¬(m < 0 ↔ n < 0) then
      unchecked (quotient.sub? 1)
    else
      return quotient

end Integer

/-- How the machine computes the operator of an integer. -/
def UnaryOp.onMachine? : UnaryOp → Option (Integer → Except Interrupt Integer)
  | neg => some fun m => Integer.checked neg.symbol m.neg?
  | not => none

/-- Applies an operator to a value, on the machine if it computes an integer. -/
def UnaryOp.compute (op : UnaryOp) (operand : Value) : Except Interrupt Value :=
  match op.onMachine?, operand with
  | some f, .int m => (f m).map .int
  | _, _ => (op.apply operand).mapError .fault

/-- How the machine computes the operator of two integers, if it gives an integer. -/
def BinaryOp.onMachine? : BinaryOp → Option (Integer → Integer → Except Interrupt Integer)
  | add => some fun m n => Integer.checked add.symbol (m.add? n)
  | sub => some fun m n => Integer.checked sub.symbol (m.sub? n)
  | mul => some fun m n => Integer.checked mul.symbol (m.mul? n)
  | div => some Integer.floorDivide
  | lt | gt | eq | notEq => none

/-- Applies an operator to two values, on the machine if it computes an integer. -/
def BinaryOp.compute (op : BinaryOp) (left right : Value) : Except Interrupt Value :=
  match op.onMachine?, left, right with
  | some f, .int m, .int n => (f m n).map .int
  | _, _, _ => (op.apply left right).mapError .fault

end Monkey

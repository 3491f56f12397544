import Monkey.Numeral
import Monkey.Token.Basic
import Monkey.Value.Kind

/-! # Faults

What can go wrong with a program, as causes. Parsing faults carry the token
they are about and its index; evaluation faults carry names, operators and the
kinds of values. `Fault.message` gives each its text.
-/

namespace Monkey

/-- Why a program was refused or gave no value. -/
inductive Fault
  /-- A token of another kind than the ones that may stand here. -/
  | unexpectedToken (expected : List Token.Kind) (found : Token) (index : Nat)
  /-- No expression begins with this token. -/
  | noExpression (found : Token) (index : Nat)
  /-- The token binds like an operator and yet continues no expression. -/
  | noContinuation (found : Token) (index : Nat)
  /-- The text of an integer token is no 64-bit integer. -/
  | invalidInteger (literal : String) (index : Nat)
  /-- No enclosing scope binds the name. -/
  | undefined (name : String)
  /-- The current scope binds the name already. -/
  | duplicate (name : String)
  /-- A value other than a function was called. -/
  | notCallable (kind : Value.Kind)
  /-- The operator is not defined on operands of these kinds. -/
  | unsupported (operator : String) (operands : List Value.Kind)
  /-- A function was called with another number of arguments than it has parameters. -/
  | arity (expected got : Nat)
  /-- A condition was neither true nor false. -/
  | notBoolean (kind : Value.Kind)
  | divisionByZero
  /-- The exact result of the operator is no 64-bit integer. -/
  | overflow (operator : String)
  deriving DecidableEq, Repr

namespace Fault

/-- The two stages at which a program can fail. -/
inductive Stage
  | parsing
  | evaluation
  deriving DecidableEq, Repr

/-- The stage that a fault belongs to. -/
def stage : Fault → Stage
  | unexpectedToken .. | noExpression .. | noContinuation .. | invalidInteger .. => .parsing
  | undefined .. | duplicate .. | notCallable .. | unsupported .. | arity .. | notBoolean ..
  | divisionByZero | overflow .. => .evaluation

/-- The kinds that may stand at a place: one by its label, any other number as a choice. -/
def expectation : List Token.Kind → String
  | [k] => k.label
  | ks => "one of " ++ ", ".intercalate (ks.map Token.Kind.label)

/-- The kinds of the operands of an operator. -/
def operandKinds : List Value.Kind → String
  | [k] => "operand of type " ++ k.name
  | ks => "operands of types " ++ ", ".intercalate (ks.map Value.Kind.name)

/-- A token by its label and literal, with its index and position. -/
def located (t : Token) (index : Nat) : String :=
  t.kind.label ++ " `" ++ t.literal ++ "` at token " ++ Numeral.ofNat index ++
    " (line " ++ Numeral.ofNat t.position.line ++ ", column " ++
    Numeral.ofNat t.position.column ++ ")"

/-- The text of a fault. -/
def message : Fault → String
  | unexpectedToken expected found index =>
    "Unexpected token " ++ located found index ++ ": expected " ++ expectation expected
  | noExpression found index => "No prefix parse function for " ++ located found index
  | noContinuation found index => "No infix parse function for " ++ located found index
  | invalidInteger literal index =>
    "Invalid integer literal `" ++ literal ++ "` at token " ++ Numeral.ofNat index
  | undefined name => "Undefined identifier: " ++ name
  | duplicate name => "Identifier " ++ name ++ " is already defined in this scope"
  | notCallable kind => "Value is not callable: " ++ kind.name
  | unsupported operator operands =>
    "Unsupported operator: " ++ operator ++ " for " ++ operandKinds operands
  | arity expected got =>
    "Wrong number of arguments: expected " ++ Numeral.ofNat expected ++ ", got " ++
      Numeral.ofNat got
  | notBoolean kind => "Condition must be Boolean, got " ++ kind.name
  | divisionByZero => "Division by zero"
  | overflow operator => "Integer overflow in " ++ operator

end Fault

end Monkey

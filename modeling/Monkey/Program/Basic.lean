import Monkey.Integer

/-! # Programs

The abstract form of a program: statements and expressions, with the unary and
binary operators that expressions apply. A block and a program are both
sequences of statements.
-/

namespace Monkey

/-- Operators on one operand. -/
inductive UnaryOp
  | neg
  | not
  deriving DecidableEq, Repr

/-- Operators on two operands. -/
inductive BinaryOp
  | add
  | sub
  | mul
  | div
  | lt
  | gt
  | eq
  | notEq
  deriving DecidableEq, Repr

/-- How a program text writes an operator. -/
def UnaryOp.symbol : UnaryOp → String
  | neg => "-"
  | not => "!"

/-- How a program text writes an operator. -/
def BinaryOp.symbol : BinaryOp → String
  | add => "+"
  | sub => "-"
  | mul => "*"
  | div => "/"
  | lt => "<"
  | gt => ">"
  | eq => "=="
  | notEq => "!="

mutual

/-- Expressions. -/
inductive Expr
  | ident (name : String)
  | int (value : Integer)
  | str (value : String)
  | bool (value : Bool)
  | unary (op : UnaryOp) (operand : Expr)
  | binary (op : BinaryOp) (left right : Expr)
  /-- A conditional; without an alternative it is null when the condition fails. -/
  | cond (condition : Expr) (consequence : List Stmt) (alternative : Option (List Stmt))
  /-- A function literal. -/
  | fn (params : List String) (body : List Stmt)
  | call (callee : Expr) (args : List Expr)
  deriving Repr

/-- Statements. -/
inductive Stmt
  /-- Binds a name in the current scope. -/
  | bind (name : String) (value : Expr)
  /-- Ends the enclosing function, or the program. -/
  | ret (value : Expr)
  /-- An expression, evaluated for its value. -/
  | expr (value : Expr)
  deriving Repr

end

/-- A sequence of statements with a scope of its own. -/
abbrev Block := List Stmt

/-- A whole program. -/
abbrev Program := List Stmt

end Monkey

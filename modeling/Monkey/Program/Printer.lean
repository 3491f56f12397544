import Monkey.Program.Outline

/-! # Printing programs as outlines

A printer visits the nodes of a program one after the other and counts the ancestors of
the node it is at. For each node it writes a line, and below it what it writes for the
parts of the node, one level deeper.
-/

namespace Monkey

/-- A printer knows how many ancestors the node that it prints next has. -/
abbrev Printer := StateM Nat

namespace Printer

/-- What a new printer gives; it starts at no ancestors. -/
def fresh {α : Type} (x : Printer α) : α :=
  (x.run 0).1

/-- A line with a label, as deep as the printer is. -/
def line (label : String) : Printer String := do
  return Outline.indented (← get) label

/-- A line with a label, and below it what its children give one level deeper. -/
def node (label : String) (children : Printer (List String)) : Printer String := do
  let head ← line label
  modify (· + 1)
  let rest ← children
  modify (· - 1)
  return "\n".intercalate (head :: rest)

end Printer

open Printer

mutual

/-- Prints an expression. -/
def Expr.print : Expr → Printer String
  | .ident name => line ("Identifier " ++ name)
  | .int value => line ("IntegerLiteral " ++ value.toText)
  | .str value => line ("StringLiteral " ++ Text.quote value)
  | .bool value => line ("BooleanLiteral " ++ if value then "true" else "false")
  | .unary op operand => node ("PrefixExpression " ++ op.symbol) do return [← operand.print]
  | .binary op left right =>
    node ("InfixExpression " ++ op.symbol) do return [← left.print, ← right.print]
  | .cond condition consequence none => node "IfExpression" do
    return [← condition.print, ← node "BlockStatement" (Stmt.printAll consequence)]
  | .cond condition consequence (some alternative) => node "IfExpression" do
    return [← condition.print, ← node "BlockStatement" (Stmt.printAll consequence),
      ← node "BlockStatement" (Stmt.printAll alternative)]
  | .fn params body => node ("FunctionLiteral (" ++ commaSeparated params ++ ")") do
    return [← node "BlockStatement" (Stmt.printAll body)]
  | .call callee args => node "CallExpression" do
    return (← callee.print) :: (← Expr.printAll args)

/-- Prints expressions in turn. -/
def Expr.printAll : List Expr → Printer (List String)
  | [] => return []
  | e :: es => do return (← e.print) :: (← Expr.printAll es)

/-- Prints a statement. -/
def Stmt.print : Stmt → Printer String
  | .bind name value => node ("LetStatement " ++ name) do return [← value.print]
  | .ret value => node "ReturnStatement" do return [← value.print]
  | .expr value => node "ExpressionStatement" do return [← value.print]

/-- Prints statements in turn. -/
def Stmt.printAll : List Stmt → Printer (List String)
  | [] => return []
  | s :: ss => do return (← s.print) :: (← Stmt.printAll ss)

end

/-- Prints a block. -/
def Block.print (b : Block) : Printer String :=
  node "BlockStatement" (Stmt.printAll b)

/-- Prints a program. -/
def Program.print (p : Program) : Printer String :=
  node "Program" (Stmt.printAll p)

end Monkey

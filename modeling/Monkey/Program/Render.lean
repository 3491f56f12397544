import Monkey.Program.Basic
import Monkey.Text.Quoted

/-! # Programs as one line of text

Rendering writes every operator application in parentheses and every block in
braces, with single spaces between the parts.
-/

namespace Monkey

/-- Names or arguments between commas. -/
def commaSeparated (texts : List String) : String :=
  ", ".intercalate texts

/-- Statements in braces, each of them after a space. -/
def braced (body : String) : String :=
  "\x7b" ++ body ++ " \x7d"

mutual

/-- The text of an expression. -/
def Expr.render : Expr → String
  | .ident name => name
  | .int value => value.toText
  | .str value => Text.quote value
  | .bool value => if value then "true" else "false"
  | .unary op operand => "(" ++ op.symbol ++ operand.render ++ ")"
  | .binary op left right =>
    "(" ++ left.render ++ " " ++ op.symbol ++ " " ++ right.render ++ ")"
  | .cond condition consequence none =>
    "if " ++ condition.render ++ " " ++ braced (Stmt.renderAll consequence)
  | .cond condition consequence (some alternative) =>
    "if " ++ condition.render ++ " " ++ braced (Stmt.renderAll consequence) ++ " else " ++
      braced (Stmt.renderAll alternative)
  | .fn params body => "fn(" ++ commaSeparated params ++ ") " ++ braced (Stmt.renderAll body)
  | .call callee args => callee.render ++ "(" ++ commaSeparated (Expr.renderAll args) ++ ")"

/-- The texts of several expressions. -/
def Expr.renderAll : List Expr → List String
  | [] => []
  | e :: es => e.render :: Expr.renderAll es

/-- The text of a statement. -/
def Stmt.render : Stmt → String
  | .bind name value => "let " ++ name ++ " = " ++ value.render ++ ";"
  | .ret value => "return " ++ value.render ++ ";"
  | .expr value => value.render

/-- The texts of several statements, each after a space. -/
def Stmt.renderAll : List Stmt → String
  | [] => ""
  | s :: ss => " " ++ s.render ++ Stmt.renderAll ss

end

/-- The text of a block. -/
def Block.render (b : Block) : String :=
  braced (Stmt.renderAll b)

/-- The text of a program: its statements between spaces. -/
def Program.render (p : Program) : String :=
  " ".intercalate (p.map Stmt.render)

end Monkey

import Monkey.Program.Basic
import Monkey.Program.Render
import Monkey.Text.Quoted

/-! # Programs as an indented outline

An outline is a tree of labels. Its text has one line for each node, in
pre-order, indented by two spaces for each ancestor. Programs, statements,
blocks and expressions each have an outline with one node for each of their
parts.
-/

namespace Monkey

/-- A tree of labels. -/
inductive Outline
  | node (label : String) (children : List Outline)
  deriving Repr

namespace Outline

/-- A label with as many indents in front as it has ancestors. -/
def indented (depth : Nat) (label : String) : String :=
  String.ofList (List.replicate (2 * depth) ' ') ++ label

mutual

/-- The lines of an outline whose root has `depth` ancestors. -/
def lines (depth : Nat) : Outline → List String
  | node label children => indented depth label :: linesOfAll (depth + 1) children

/-- The lines of several outlines, one after the other. -/
def linesOfAll (depth : Nat) : List Outline → List String
  | [] => []
  | o :: os => lines depth o ++ linesOfAll depth os

end

/-- The text of an outline. -/
def render (o : Outline) : String :=
  "\n".intercalate (o.lines 0)

end Outline

mutual

/-- The outline of an expression. -/
def Expr.outline : Expr → Outline
  | .ident name => .node ("Identifier " ++ name) []
  | .int value => .node ("IntegerLiteral " ++ value.toText) []
  | .str value => .node ("StringLiteral " ++ Text.quote value) []
  | .bool value => .node ("BooleanLiteral " ++ if value then "true" else "false") []
  | .unary op operand => .node ("PrefixExpression " ++ op.symbol) [operand.outline]
  | .binary op left right =>
    .node ("InfixExpression " ++ op.symbol) [left.outline, right.outline]
  | .cond condition consequence none =>
    .node "IfExpression" [condition.outline, .node "BlockStatement" (Stmt.outlines consequence)]
  | .cond condition consequence (some alternative) =>
    .node "IfExpression" [condition.outline, .node "BlockStatement" (Stmt.outlines consequence),
      .node "BlockStatement" (Stmt.outlines alternative)]
  | .fn params body =>
    .node ("FunctionLiteral (" ++ commaSeparated params ++ ")")
      [.node "BlockStatement" (Stmt.outlines body)]
  | .call callee args => .node "CallExpression" (callee.outline :: Expr.outlines args)

/-- The outlines of several expressions. -/
def Expr.outlines : List Expr → List Outline
  | [] => []
  | e :: es => e.outline :: Expr.outlines es

/-- The outline of a statement. -/
def Stmt.outline : Stmt → Outline
  | .bind name value => .node ("LetStatement " ++ name) [value.outline]
  | .ret value => .node "ReturnStatement" [value.outline]
  | .expr value => .node "ExpressionStatement" [value.outline]

/-- The outlines of several statements. -/
def Stmt.outlines : List Stmt → List Outline
  | [] => []
  | s :: ss => s.outline :: Stmt.outlines ss

end

/-- The outline of a block. -/
def Block.outline (b : Block) : Outline :=
  .node "BlockStatement" (Stmt.outlines b)

/-- The outline of a program. -/
def Program.outline (p : Program) : Outline :=
  .node "Program" (Stmt.outlines p)

end Monkey

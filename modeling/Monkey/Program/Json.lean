import Monkey.Json.Basic
import Monkey.Program.Basic

/-! # Programs as JSON

A variant is an object with its name as the only key; its parts are the
members of a record, or the content itself where there is only one. Reading
ignores members that a record does not have. A conditional always writes its
alternative, null when there is none, and may lack it when read.
-/

namespace Monkey

namespace UnaryOp

/-- How JSON calls an operator. -/
def name : UnaryOp → String
  | neg => "Neg"
  | not => "Not"

/-- The operator that a JSON constant names. -/
def ofJson? (j : Json) : Option UnaryOp :=
  match j.constant? with
  | some "Neg" => some neg
  | some "Not" => some not
  | _ => none

end UnaryOp

namespace BinaryOp

/-- How JSON calls an operator. -/
def name : BinaryOp → String
  | add => "Add"
  | sub => "Sub"
  | mul => "Mul"
  | div => "Div"
  | lt => "Lt"
  | gt => "Gt"
  | eq => "Eq"
  | notEq => "NotEq"

/-- The operator that a JSON constant names. -/
def ofJson? (j : Json) : Option BinaryOp :=
  match j.constant? with
  | some "Add" => some add
  | some "Sub" => some sub
  | some "Mul" => some mul
  | some "Div" => some div
  | some "Lt" => some lt
  | some "Gt" => some gt
  | some "Eq" => some eq
  | some "NotEq" => some notEq
  | _ => none

end BinaryOp

/-- The record of a sequence of statements. -/
def Json.ofStatements (items : List Json) : Json :=
  .obj [("statements", .arr items)]

mutual

/-- The JSON form of an expression. -/
def Expr.toJson : Expr → Json
  | .ident name => .obj [("Identifier", .str name)]
  | .int value => .obj [("IntegerLiteral", .int value.toInt)]
  | .str value => .obj [("StringLiteral", .str value)]
  | .bool value => .obj [("BooleanLiteral", .bool value)]
  | .unary op operand =>
    .obj [("Prefix", .obj [("operator", .str op.name), ("operand", operand.toJson)])]
  | .binary op left right =>
    .obj [("Infix", .obj [("left", left.toJson), ("operator", .str op.name),
      ("right", right.toJson)])]
  | .cond condition consequence none =>
    .obj [("If", .obj [("condition", condition.toJson),
      ("consequence", .ofStatements (Stmt.toJsonAll consequence)), ("alternative", .null)])]
  | .cond condition consequence (some alternative) =>
    .obj [("If", .obj [("condition", condition.toJson),
      ("consequence", .ofStatements (Stmt.toJsonAll consequence)),
      ("alternative", .ofStatements (Stmt.toJsonAll alternative))])]
  | .fn params body =>
    .obj [("FunctionLiteral", .obj [("parameters", .arr (params.map .str)),
      ("body", .ofStatements (Stmt.toJsonAll body))])]
  | .call callee args =>
    .obj [("Call", .obj [("function", callee.toJson), ("arguments", .arr (Expr.toJsonAll args))])]

/-- The JSON forms of several expressions. -/
def Expr.toJsonAll : List Expr → List Json
  | [] => []
  | e :: es => e.toJson :: Expr.toJsonAll es

/-- The JSON form of a statement. -/
def Stmt.toJson : Stmt → Json
  | .bind name value => .obj [("Let", .obj [("name", .str name), ("value", value.toJson)])]
  | .ret value => .obj [("Return", value.toJson)]
  | .expr value => .obj [("Expression", value.toJson)]

/-- The JSON forms of several statements. -/
def Stmt.toJsonAll : List Stmt → List Json
  | [] => []
  | s :: ss => s.toJson :: Stmt.toJsonAll ss

end

/-- The JSON form of a program. -/
def Program.toJson (p : Program) : Json :=
  .ofStatements (Stmt.toJsonAll p)

namespace Json

/-- The items of a record whose only member is a sequence of statements. -/
def statements? (j : Json) : Option (List Json) :=
  match j.record? ["statements"] with
  | some [arr items] => some items
  | _ => none

theorem sizeOf_statements? {j : Json} {items : List Json} (h : j.statements? = some items) :
    sizeOf items < sizeOf j := by
  unfold statements? at h
  split at h
  · next vs hv =>
    cases h
    unfold record? at hv
    split at hv
    · next members =>
      cases hl : members.lookup "statements" with
      | none => simp [hl] at hv
      | some v =>
        have := sizeOf_lookup hl
        simp [hl] at hv
        subst hv
        simp at this ⊢
        omega
    · next vs =>
      split at hv
      · cases hv
        simp
        omega
      · simp at hv
    · simp at hv
  · simp at h

end Json

mutual

/-- The expression that a JSON value describes. -/
def Expr.ofJson? (j : Json) : Option Expr := do
  let ⟨(tag, content), _⟩ ← j.variant?.attach
  match tag with
  | "Identifier" => return .ident (← content.str?)
  | "IntegerLiteral" => return .int (← Integer.ofInt? (← content.int?))
  | "StringLiteral" => return .str (← content.str?)
  | "BooleanLiteral" => return .bool (← content.bool?)
  | "Prefix" =>
    let op ← UnaryOp.ofJson? (← content.member? "operator")
    let ⟨operand, _⟩ ← (content.member? "operand").attach
    return .unary op (← Expr.ofJson? operand)
  | "Infix" =>
    let op ← BinaryOp.ofJson? (← content.member? "operator")
    let ⟨left, _⟩ ← (content.member? "left").attach
    let ⟨right, _⟩ ← (content.member? "right").attach
    return .binary op (← Expr.ofJson? left) (← Expr.ofJson? right)
  | "If" =>
    let ⟨condition, _⟩ ← (content.member? "condition").attach
    let ⟨consequence, _⟩ ← (content.member? "consequence").attach
    let condition ← Expr.ofJson? condition
    let consequence ← Block.ofJson? consequence
    match (content.member? "alternative").attach with
    | none | some ⟨.null, _⟩ => return .cond condition consequence none
    | some ⟨alternative, _⟩ =>
      return .cond condition consequence (some (← Block.ofJson? alternative))
  | "FunctionLiteral" =>
    let params ← (← (← content.member? "parameters").arr?).mapM Json.str?
    let ⟨body, _⟩ ← (content.member? "body").attach
    return .fn params (← Block.ofJson? body)
  | "Call" =>
    let ⟨callee, _⟩ ← (content.member? "function").attach
    let ⟨args, _⟩ ← (content.member? "arguments").attach
    let ⟨items, _⟩ ← args.arr?.attach
    return .call (← Expr.ofJson? callee) (← Expr.listOfJson? items)
  | _ => none
termination_by sizeOf j
decreasing_by
  all_goals have hcontent := Json.sizeOf_variant? ‹j.variant? = _›
  · exact Nat.lt_trans (Json.sizeOf_member? ‹content.member? "operand" = _›) hcontent
  · exact Nat.lt_trans (Json.sizeOf_member? ‹content.member? "left" = _›) hcontent
  · exact Nat.lt_trans (Json.sizeOf_member? ‹content.member? "right" = _›) hcontent
  · exact Nat.lt_trans (Json.sizeOf_member? ‹content.member? "condition" = _›) hcontent
  · exact Nat.lt_trans (Json.sizeOf_member? ‹content.member? "consequence" = _›) hcontent
  · exact Nat.lt_trans (Json.sizeOf_member? ‹content.member? "alternative" = _›) hcontent
  · exact Nat.lt_trans (Json.sizeOf_member? ‹content.member? "body" = _›) hcontent
  · exact Nat.lt_trans (Json.sizeOf_member? ‹content.member? "function" = _›) hcontent
  · exact Nat.lt_trans (Json.sizeOf_arr? ‹args.arr? = _›)
      (Nat.lt_trans (Json.sizeOf_member? ‹content.member? "arguments" = _›) hcontent)

/-- The expressions that JSON values describe. -/
def Expr.listOfJson? : List Json → Option (List Expr)
  | [] => some []
  | j :: js => do return (← Expr.ofJson? j) :: (← Expr.listOfJson? js)
termination_by js => sizeOf js

/-- The statement that a JSON value describes. -/
def Stmt.ofJson? (j : Json) : Option Stmt := do
  let ⟨(tag, content), _⟩ ← j.variant?.attach
  match tag with
  | "Let" =>
    let name ← (← content.member? "name").str?
    let ⟨value, _⟩ ← (content.member? "value").attach
    return .bind name (← Expr.ofJson? value)
  | "Return" => return .ret (← Expr.ofJson? content)
  | "Expression" => return .expr (← Expr.ofJson? content)
  | _ => none
termination_by sizeOf j
decreasing_by
  all_goals have hcontent := Json.sizeOf_variant? ‹j.variant? = _›
  · exact Nat.lt_trans (Json.sizeOf_member? ‹content.member? "value" = _›) hcontent
  · exact hcontent
  · exact hcontent

/-- The statements that JSON values describe. -/
def Stmt.listOfJson? : List Json → Option (List Stmt)
  | [] => some []
  | j :: js => do return (← Stmt.ofJson? j) :: (← Stmt.listOfJson? js)
termination_by js => sizeOf js

/-- The block that a JSON record describes. -/
def Block.ofJson? (j : Json) : Option Block := do
  let ⟨items, _⟩ ← j.statements?.attach
  Stmt.listOfJson? items
termination_by sizeOf j
decreasing_by exact Json.sizeOf_statements? ‹_›

end

/-- The program that a JSON record describes. -/
def Program.ofJson? (j : Json) : Option Program :=
  Block.ofJson? j

end Monkey

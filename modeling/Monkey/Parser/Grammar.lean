import Monkey.Parser.Basic
import Monkey.Program.Precedence
import Monkey.Text.Quoted

/-! # The grammar

Parsers for statements, blocks and expressions. An expression is an operand
followed by the operators and argument lists that bind tighter than a given
level, so precedence and left association come from one loop. Each parser
takes the budget of nested parsers that it may still start.
-/

namespace Monkey.Parser

/-- An integer literal; a text that is no 64-bit integer is refused after it has been read. -/
def integer : Parser Expr := do
  let index := (← get).index
  let t ← expect [.int]
  match Integer.ofNumeral? t.literal with
  | some n => return .int n
  | none => throw (.invalidInteger t.literal index)

/-- The rest of a list of parameters from its first one or after a comma. -/
def moreParameters : Nat → Parser (List String)
  | 0 => outOfBudget
  | budget + 1 => do
    let name ← expect [.ident]
    let separator ← expect [.comma, .rparen]
    if separator.kind = .comma then
      return name.literal :: (← moreParameters budget)
    else
      return [name.literal]

/-- The parameters of a function, in parentheses. -/
def parameters (budget : Nat) : Parser (List String) := do
  let _ ← expect [.lparen]
  if ← accept .rparen then return [] else moreParameters budget

mutual

/-- A statement. -/
def statement : Nat → Parser Stmt
  | 0 => outOfBudget
  | budget + 1 => do
    match (← peek).kind with
    | .letWord =>
      advance
      let name ← expect [.ident]
      let _ ← expect [.assign]
      let value ← expression budget .lowest
      let _ ← expect [.semicolon]
      return .bind name.literal value
    | .returnWord =>
      advance
      let value ← expression budget .lowest
      let _ ← expect [.semicolon]
      return .ret value
    | _ =>
      let value ← expression budget .lowest
      let _ ← accept .semicolon
      return .expr value

/-- Statements up to a token of one of these kinds, which is not read. -/
def statements : Nat → List Token.Kind → Parser (List Stmt)
  | 0, _ => outOfBudget
  | budget + 1, closers => do
    if (← peek).kind ∈ closers then
      return []
    else
      let s ← statement budget
      return s :: (← statements budget closers)

/-- Statements in braces. -/
def block : Nat → Parser Block
  | 0 => outOfBudget
  | budget + 1 => do
    let _ ← expect [.lbrace]
    let body ← statements budget [.rbrace, .eof]
    let _ ← expect [.rbrace]
    return body

/-- An expression whose operators bind tighter than `level`. -/
def expression : Nat → Precedence → Parser Expr
  | 0, _ => outOfBudget
  | budget + 1, level => do
    let left ← operand budget
    continuation budget level left

/-- An operand: a literal, a name, a negation, a group, a conditional or a function. -/
def operand : Nat → Parser Expr
  | 0 => outOfBudget
  | budget + 1 => do
    let t ← peek
    match t.kind with
    | .ident => advance; return .ident t.literal
    | .int => integer
    | .string => advance; return .str (Text.unquote t.literal)
    | .trueWord => advance; return .bool true
    | .falseWord => advance; return .bool false
    | .minus => advance; return .unary .neg (← expression budget .unary)
    | .bang => advance; return .unary .not (← expression budget .unary)
    | .lparen =>
      advance
      let inner ← expression budget .lowest
      let _ ← expect [.rparen]
      return inner
    | .ifWord =>
      advance
      let _ ← expect [.lparen]
      let condition ← expression budget .lowest
      let _ ← expect [.rparen]
      let consequence ← block budget
      if ← accept .elseWord then
        return .cond condition consequence (some (← block budget))
      else
        return .cond condition consequence none
    | .fnWord =>
      advance
      let params ← parameters budget
      let body ← block budget
      return .fn params body
    | _ => refuse .noExpression

/-- The operators and argument lists after an operand, as long as they bind tighter. -/
def continuation : Nat → Precedence → Expr → Parser Expr
  | 0, _, _ => outOfBudget
  | budget + 1, level, left => do
    let t ← peek
    if level < .ofKind t.kind then
      match BinaryOp.ofKind? t.kind, t.kind with
      | some op, _ =>
        advance
        let right ← expression budget (.ofKind t.kind)
        continuation budget level (.binary op left right)
      | none, .lparen =>
        advance
        let args ← arguments budget
        continuation budget level (.call left args)
      | none, _ => refuse .noContinuation
    else
      return left

/-- The arguments of a call after its opening parenthesis. -/
def arguments : Nat → Parser (List Expr)
  | 0 => outOfBudget
  | budget + 1 => do
    if ← accept .rparen then return [] else moreArguments budget

/-- The rest of a list of arguments from its first one or after a comma. -/
def moreArguments : Nat → Parser (List Expr)
  | 0 => outOfBudget
  | budget + 1 => do
    let arg ← expression budget .lowest
    let separator ← expect [.comma, .rparen]
    if separator.kind = .comma then
      return arg :: (← moreArguments budget)
    else
      return [arg]

end

/-- A whole program: statements up to the end of the text. -/
def program (budget : Nat) : Parser Program :=
  statements budget [.eof]

end Monkey.Parser

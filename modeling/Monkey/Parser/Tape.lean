import Monkey.Parser.Basic
import Monkey.Program.Precedence
import Monkey.Text.Quoted

/-! # Parsing by index

The grammar read from an array of tokens by the index of the current one. The token
at the index is looked up every time, and a look-up outside of the array is an
outcome of its own: nothing but the rules keeps the index inside. What may begin an
expression, and what may continue one, is found in two tables of handlers. A parser
serves one request after the other, also after a fault, from where the last one left
the index. Each rule takes the budget of nested rules that it may still start.
-/

namespace Monkey

/-- An array of tokens with the index of the current one. -/
structure Tape where
  tokens : Array Token
  index : Nat
  deriving DecidableEq, Repr

/-- Why a parser stopped. -/
inductive Halt
  | fault (e : Fault)
  /-- A token was looked up outside of the array. -/
  | outside
  deriving DecidableEq, Repr

/-- A reader of a tape. The outer `Option` is `none` when a budget ran out. -/
abbrev Descent (α : Type) := ExceptT Halt (StateT Tape Option) α

namespace Descent

open Token (Kind)

variable {α : Type}

/-- Runs a reader on a tape. -/
def runOn (p : Descent α) (t : Tape) : Option (Except Halt α × Tape) :=
  StateT.run (ExceptT.run p) t

/-- The outcome of a reader whose budget is used up. -/
def outOfBudget : Descent α :=
  ExceptT.mk (StateT.lift none)

/-- The current token, which stays to be read. -/
def peek : Descent Token := do
  let t ← get
  match t.tokens[t.index]? with
  | some token => return token
  | none => throw .outside

/-- Whether the current token is of this kind. -/
def check (kind : Kind) : Descent Bool :=
  return (← peek).kind = kind

/-- Reads the current token. The index stays on an end of text. -/
def advance : Descent Token := do
  let token ← peek
  if token.kind ≠ .eof then
    modify fun t => { t with index := t.index + 1 }
  return token

/-- Stops with a fault about the current token. -/
def refuse (fault : Token → Nat → Fault) : Descent α := do
  let token ← peek
  throw (.fault (fault token (← get).index))

/-- Reads the current token if it is of one of these kinds, and stops otherwise. -/
def expect (kinds : List Kind) : Descent Token := do
  if (← peek).kind ∈ kinds then
    advance
  else
    refuse (.unexpectedToken kinds)

/-! ## Handlers -/

/-- A name. -/
def identifier : Descent Expr := do
  let t ← expect [.ident]
  return .ident t.literal

/-- An integer literal, which has been read when its text turns out to be no integer. -/
def integer : Descent Expr := do
  let index := (← get).index
  let t ← expect [.int]
  match Integer.ofNumeral? t.literal with
  | some n => return .int n
  | none => throw (.fault (.invalidInteger t.literal index))

/-- A string literal. -/
def string : Descent Expr := do
  let t ← expect [.string]
  return .str (Text.unquote t.literal)

/-- A truth value. -/
def boolean : Descent Expr := do
  let t ← expect [.trueWord, .falseWord]
  return .bool (t.kind = .trueWord)

/-- The names after one parameter or after the parenthesis, up to the closing one. -/
def moreParameters : Nat → Descent (List String)
  | 0 => outOfBudget
  | budget + 1 => do
    let name ← expect [.ident]
    let separator ← expect [.comma, .rparen]
    if separator.kind = .comma then
      return name.literal :: (← moreParameters budget)
    else
      return [name.literal]

/-- The parameters of a function, in parentheses. -/
def parameters (budget : Nat) : Descent (List String) := do
  let _ ← expect [.lparen]
  if ← check .rparen then
    let _ ← advance
    return []
  else
    moreParameters budget

section

variable (expression : Precedence → Descent Expr) (block : Descent Block)

/-- An operator and its only operand. -/
def negation : Descent Expr := do
  let t ← expect [.minus, .bang]
  let op := if t.kind = .minus then UnaryOp.neg else .not
  return .unary op (← expression .unary)

/-- An expression in parentheses. -/
def group : Descent Expr := do
  let _ ← expect [.lparen]
  let inner ← expression .lowest
  let _ ← expect [.rparen]
  return inner

/-- A conditional, with or without an alternative. -/
def conditional : Descent Expr := do
  let _ ← expect [.ifWord]
  let _ ← expect [.lparen]
  let condition ← expression .lowest
  let _ ← expect [.rparen]
  let consequence ← block
  if ← check .elseWord then
    let _ ← advance
    return .cond condition consequence (some (← block))
  else
    return .cond condition consequence none

/-- A function literal. -/
def function (parameters : Descent (List String)) : Descent Expr := do
  let _ ← expect [.fnWord]
  let params ← parameters
  return .fn params (← block)

/-- The handler of a token that begins an expression. -/
def beginning? (parameters : Descent (List String)) : Kind → Option (Descent Expr)
  | .ident => some identifier
  | .int => some integer
  | .string => some string
  | .trueWord | .falseWord => some boolean
  | .bang | .minus => some (negation expression)
  | .lparen => some (group expression)
  | .ifWord => some (conditional expression block)
  | .fnWord => some (function block parameters)
  | _ => none

/-- The kinds of token that stand between two operands. -/
def operators : List Kind :=
  [.plus, .minus, .asterisk, .slash, .lt, .gt, .eq, .notEq]

/-- An operator after its left operand, and the right one. -/
def operation (left : Expr) : Descent Expr := do
  let level := Precedence.ofKind (← peek).kind
  let t ← expect operators
  let op := (BinaryOp.ofKind? t.kind).getD .notEq
  return .binary op left (← expression level)

/-- The arguments of a call after its callee. -/
def application (arguments : Descent (List Expr)) (callee : Expr) : Descent Expr := do
  let _ ← expect [.lparen]
  return .call callee (← arguments)

/-- The handler of a token that continues an expression. -/
def continuing? (arguments : Descent (List Expr)) : Kind → Option (Expr → Descent Expr)
  | .plus | .minus | .asterisk | .slash | .lt | .gt | .eq | .notEq => some (operation expression)
  | .lparen => some (application arguments)
  | _ => none

end

/-! ## Rules -/

mutual

/-- A statement. -/
def statement : Nat → Descent Stmt
  | 0 => outOfBudget
  | budget + 1 => do
    match (← peek).kind with
    | .letWord =>
      let _ ← expect [.letWord]
      let name ← expect [.ident]
      let _ ← expect [.assign]
      let value ← expression budget .lowest
      let _ ← expect [.semicolon]
      return .bind name.literal value
    | .returnWord =>
      let _ ← expect [.returnWord]
      let value ← expression budget .lowest
      let _ ← expect [.semicolon]
      return .ret value
    | _ =>
      let value ← expression budget .lowest
      if ← check .semicolon then
        let _ ← advance
        return .expr value
      else
        return .expr value

/-- Statements up to a token of one of these kinds, which is not read. -/
def statements : Nat → List Kind → Descent (List Stmt)
  | 0, _ => outOfBudget
  | budget + 1, closers => do
    if (← peek).kind ∈ closers then
      return []
    else
      let s ← statement budget
      return s :: (← statements budget closers)

/-- Statements in braces. -/
def block : Nat → Descent Block
  | 0 => outOfBudget
  | budget + 1 => do
    let _ ← expect [.lbrace]
    let body ← statements budget [.rbrace, .eof]
    let _ ← expect [.rbrace]
    return body

/-- An expression whose operators bind tighter than `level`. -/
def expression : Nat → Precedence → Descent Expr
  | 0, _ => outOfBudget
  | budget + 1, level => do
    let left ← operand budget
    continuation budget level left

/-- An operand, by the handler of its first token. -/
def operand : Nat → Descent Expr
  | 0 => outOfBudget
  | budget + 1 => do
    match beginning? (expression budget) (block budget) (parameters budget) (← peek).kind with
    | some handler => handler
    | none => refuse .noExpression

/-- What follows an operand, as long as it binds tighter than `level`. -/
def continuation : Nat → Precedence → Expr → Descent Expr
  | 0, _, _ => outOfBudget
  | budget + 1, level, left => do
    let ended ← check .semicolon
    let t ← peek
    if ¬ ended ∧ level < .ofKind t.kind then
      match continuing? (expression budget) (arguments budget) t.kind with
      | some handler => continuation budget level (← handler left)
      | none => refuse .noContinuation
    else
      return left

/-- The arguments of a call after its opening parenthesis. -/
def arguments : Nat → Descent (List Expr)
  | 0 => outOfBudget
  | budget + 1 => do
    if ← check .rparen then
      let _ ← advance
      return []
    else
      moreArguments budget

/-- The rest of a list of arguments from its first one or after a comma. -/
def moreArguments : Nat → Descent (List Expr)
  | 0 => outOfBudget
  | budget + 1 => do
    let arg ← expression budget .lowest
    let separator ← expect [.comma, .rparen]
    if separator.kind = .comma then
      return arg :: (← moreArguments budget)
    else
      return [arg]

end

/-- A whole program: statements up to an end of text. -/
def program (budget : Nat) : Descent Program :=
  statements budget [.eof]

end Descent

namespace Tape

/-- The first place of a list of tokens, to which an end of text is added if its last token is none. -/
def ofTokens (ts : List Token) : Tape :=
  ⟨(Token.Cursor.closed ts).toArray, 0⟩

/-- What a parser can be asked for, at any time. -/
inductive Request
  | program
  | expression (level : Precedence)
  deriving DecidableEq, Repr

/-- What it gives. -/
inductive Tree
  | program (p : Program)
  | expression (e : Expr)
  deriving Repr

/-- How many nested rules a request may start. -/
def budget (t : Tape) : Nat :=
  4 * t.tokens.size + 4

/-- Serves a request from the current token on. -/
def perform (t : Tape) : Request → Option (Except Halt Tree × Tape)
  | .program => (Tree.program <$> Descent.program t.budget).runOn t
  | .expression level => (Tree.expression <$> Descent.expression t.budget level).runOn t

/-- Serves requests one after the other. -/
def performAll (t : Tape) : List Request → Option (List (Except Halt Tree) × Tape)
  | [] => some ([], t)
  | r :: rs => do
    let (answer, t) ← t.perform r
    let (answers, t) ← t.performAll rs
    return (answer :: answers, t)

end Tape

end Monkey

import Monkey.Parser.Tape

/-! # Parsing with loops

The rules that read a tape, with a loop wherever something is repeated. A depth is spent
on every statement, block and expression while it is being read, and on nothing else, so
it bounds how many of them are open at one time, each inside the one before. The rounds
of a loop are counted apart from it.
-/

namespace Monkey

namespace Descent

open Token (Kind)

variable {α σ : Type}

/-- Goes round as long as `guard` says so, if not too often. -/
def loop (guard : Descent Bool) (body : σ → Descent σ) : Nat → σ → Descent σ
  | 0, _ => outOfBudget
  | rounds + 1, x => do
    if ← guard then
      loop guard body rounds (← body x)
    else
      return x

/-- Reads one thing more. -/
def push (item : Descent α) (xs : List α) : Descent (List α) := do
  return xs ++ [← item]

/-- Whether the current token is of none of these kinds. -/
def checkNot (kinds : List Kind) : Descent Bool := do
  return (← peek).kind ∉ kinds

/-- Reads a comma or a closing parenthesis, and says whether it was a comma. -/
def comma : Descent Bool := do
  return (← expect [.comma, .rparen]).kind = .comma

/-- Things with commas between them, from behind an opening parenthesis to the closing one. -/
def listed (item : Descent α) (rounds : Nat) : Descent (List α) := do
  if ← check .rparen then
    let _ ← advance
    return []
  else
    loop comma (push item) rounds [← item]

/-- The name of a parameter. -/
def parameter : Descent String := do
  return (← expect [.ident]).literal

/-- Whether the current token continues an expression whose operators bind tighter than `level`. -/
def binds (level : Precedence) : Descent Bool := do
  let ended ← check .semicolon
  let t ← peek
  return ¬ended ∧ level < .ofKind t.kind

section

variable (expression : Precedence → Descent Expr)

/-- A statement, by its first token. -/
def sentence : Descent Stmt := do
  match (← peek).kind with
  | .letWord =>
    let _ ← expect [.letWord]
    let name ← expect [.ident]
    let _ ← expect [.assign]
    let value ← expression .lowest
    let _ ← expect [.semicolon]
    return .bind name.literal value
  | .returnWord =>
    let _ ← expect [.returnWord]
    let value ← expression .lowest
    let _ ← expect [.semicolon]
    return .ret value
  | _ =>
    let value ← expression .lowest
    if ← check .semicolon then
      let _ ← advance
      return .expr value
    else
      return .expr value

/-- An operand, by the handler of its first token. -/
def start (block : Descent Block) (parameters : Descent (List String)) : Descent Expr := do
  match beginning? expression block parameters (← peek).kind with
  | some handler => handler
  | none => refuse .noExpression

/-- A longer expression, by the handler of the token after it. -/
def extend (arguments : Descent (List Expr)) (left : Expr) : Descent Expr := do
  match continuing? expression arguments (← peek).kind with
  | some handler => handler left
  | none => refuse .noContinuation

end

namespace Nested

variable (rounds : Nat)

/-- The parameters of a function, in parentheses. -/
def parameters : Descent (List String) := do
  let _ ← expect [.lparen]
  listed parameter rounds

mutual

/-- A statement. -/
def statement : Nat → Descent Stmt
  | 0 => outOfBudget
  | depth + 1 => sentence (expression depth)

/-- Statements in braces. -/
def block : Nat → Descent Block
  | 0 => outOfBudget
  | depth + 1 => do
    let _ ← expect [.lbrace]
    let body ← loop (checkNot [.rbrace, .eof]) (push (statement depth)) rounds []
    let _ ← expect [.rbrace]
    return body

/-- An expression whose operators bind tighter than `level`. -/
def expression : Nat → Precedence → Descent Expr
  | 0, _ => outOfBudget
  | depth + 1, level => do
    let left ← start (expression depth) (block depth) (parameters rounds)
    let arguments := listed (expression depth .lowest) rounds
    loop (binds level) (extend (expression depth) arguments) rounds left

end

/-- A whole program: statements up to an end of text. -/
def program (depth : Nat) : Descent Program :=
  loop (checkNot [.eof]) (push (statement rounds depth)) rounds []

end Nested

end Descent

namespace Tape

/-- Serves a request with loops of so many rounds and things nested so deeply at most. -/
def performNested (rounds depth : Nat) (t : Tape) : Request → Option (Except Halt Tree × Tape)
  | .program => (Tree.program <$> Descent.Nested.program rounds depth).runOn t
  | .expression level =>
    (Tree.expression <$> Descent.Nested.expression rounds depth level).runOn t

/-- How many tokens are left before the next end of text. -/
def left (t : Tape) : Nat :=
  (t.tokens.toList.drop t.index).findIdx (·.kind = .eof)

end Tape

end Monkey

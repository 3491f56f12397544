import Monkey.Evaluator.Basic

/-! # The rules of evaluation

One rule for each form of expression and statement. Operands, callees and
arguments are evaluated from left to right, and whatever ends one of them
abruptly ends the whole; only a function's body takes back a returned value.
Each rule takes the depth of nested rules that may still start.
-/

namespace Monkey.Eval

mutual

/-- The value of an expression. -/
def expr : Nat → Expr → Eval Value
  | 0, _ => tooDeep
  | depth + 1, e => do
    match e with
    | .ident name => lookup name
    | .int n => return .int n
    | .str s => return .str s
    | .bool b => return .bool b
    | .unary op operand =>
      let v ← expr depth operand
      ofExcept (op.apply v)
    | .binary op left right =>
      let v ← expr depth left
      let w ← expr depth right
      ofExcept (op.apply v w)
    | .cond condition consequence alternative =>
      match ← expr depth condition, alternative with
      | .bool true, _ => block depth consequence
      | .bool false, some alternative => block depth alternative
      | .bool false, none => return .null
      | v, _ => fail (.notBoolean v.kind)
    | .fn params body => makeFunction params body
    | .call callee args =>
      match ← expr depth callee with
      | .function _ params body captured =>
        let vs ← exprs depth args
        call depth params body captured vs
      | v => fail (.notCallable v.kind)

/-- The values of several expressions. -/
def exprs : Nat → List Expr → Eval (List Value)
  | 0, _ => tooDeep
  | _ + 1, [] => return []
  | depth + 1, e :: es => do
    let v ← expr depth e
    let vs ← exprs depth es
    return v :: vs

/-- The value of a statement: the value it binds, or that of its expression. -/
def stmt : Nat → Stmt → Eval Value
  | 0, _ => tooDeep
  | depth + 1, s => do
    match s with
    | .bind name value =>
      let v ← expr depth value
      define name v
      return v
    | .ret value =>
      let v ← expr depth value
      returning v
    | .expr value => expr depth value

/-- The value of the last of several statements, or `v` if there is none. -/
def stmts : Nat → Value → List Stmt → Eval Value
  | 0, _, _ => tooDeep
  | _ + 1, v, [] => return v
  | depth + 1, _, s :: ss => do
    let v ← stmt depth s
    stmts depth v ss

/-- The value of a block, whose statements have a scope of their own. -/
def block : Nat → Block → Eval Value
  | 0, _ => tooDeep
  | depth + 1, b => inScope (stmts depth .null b)

/--
The value of a function's body where the parameters are bound to the arguments. The parameters
have a scope inside the captured environment, and the body one inside that.
-/
def call : Nat → List String → Block → Environment Value → List Value → Eval Value
  | 0, _, _, _, _ => tooDeep
  | depth + 1, params, body, captured, args => do
    if params.length = args.length then
      let env ← ofExcept (captured.enter.defineAll (params.zip args))
      within env (landing (block depth body))
    else
      fail (.arity params.length args.length)

end

/-- The value of a program, whose bindings join the innermost scope unless there is a fault. -/
def program (depth : Nat) (p : Program) : Eval Value :=
  committing (stmts depth .null p)

end Monkey.Eval

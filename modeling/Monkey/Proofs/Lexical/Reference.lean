import Monkey.Environment.Basic
import Monkey.Proofs.Evaluation.Operators

/-! # Plain lexical scoping

An evaluator with the rules of the language and the simplest environment they
allow: one map of names to values, and the names declared so far in the current
scope. A scope begins with nothing declared on a copy of the map, and the map
from before is back at its end. A function holds the map of the moment its
literal is evaluated.
-/

namespace Monkey.Lexical

/-- Data, or a function that holds a map of names to values. -/
inductive Value
  | data (v : Monkey.Value) (h : v.IsData)
  | function (params : List String) (body : List Stmt) (captured : List (String × Value))

/-- The value of a block without statements, and of a missing alternative. -/
def Value.null : Value :=
  .data .null Value.Kind.noConfusion

/-- A value without what it captured, as texts and operators see it. -/
def Value.outline : Value → Monkey.Value
  | data v _ => v
  | function params body _ => .function 0 params body .empty

/-- The result of an operator, which is no function. -/
def Value.ofOperator : (r : Except Fault Monkey.Value) → IsOperatorResult r → Except Fault Value
  | .ok v, h => .ok (.data v h)
  | .error e, _ => .error e

/-- The map in force, and the names declared so far in the current scope. -/
structure Frame where
  bindings : Scope Value
  declared : List String

namespace Frame

/-- The frame that a scope begins with on a copy of a map. -/
def start (m : Scope Value) : Frame := ⟨m, []⟩

/-- Overrides the map in one name; a name declared in this scope already is a fault. -/
def declare (f : Frame) (name : String) (v : Value) : Except Fault Frame :=
  if name ∈ f.declared then .error (.duplicate name)
  else .ok ⟨Scope.override [(name, v)] f.bindings, name :: f.declared⟩

/-- Declares several names one after the other. -/
def declareAll (f : Frame) : List (String × Value) → Except Fault Frame
  | [] => .ok f
  | (name, v) :: bs => do (← f.declare name v).declareAll bs

theorem declare_eq_ok_iff {f f' : Frame} {name : String} {v : Value} :
    f.declare name v = .ok f' ↔ name ∉ f.declared ∧
      f' = ⟨Scope.override [(name, v)] f.bindings, name :: f.declared⟩ := by
  unfold declare
  split
  · next h => simp [h]
  · next h => simp [h, eq_comm]

theorem get?_declare {f f' : Frame} {name : String} {v : Value} (h : f.declare name v = .ok f')
    (x : String) : f'.bindings.get? x = if x = name then some v else f.bindings.get? x := by
  obtain ⟨-, rfl⟩ := declare_eq_ok_iff.1 h
  rw [Scope.get?_override, Scope.get?_cons]
  split
  · rfl
  · simp [Scope.get?]

end Frame

/-- Why an evaluation ended before its last step. -/
inductive Abrupt
  | returned (v : Value)
  | fault (e : Fault)

/-- A computation over a frame. The outer `Option` is `none` when a depth was exceeded. -/
abbrev Eval (α : Type) := ExceptT Abrupt (StateT Frame Option) α

namespace Eval

variable {α β : Type}

/-- Runs an evaluation in a frame. -/
def runIn (x : Eval α) (f : Frame) : Option (Except Abrupt α × Frame) :=
  StateT.run (ExceptT.run x) f

/-- The outcome of an evaluation that is nested too deeply. -/
def tooDeep : Eval α :=
  ExceptT.mk (StateT.lift none)

/-- Ends with a fault. -/
def fail (e : Fault) : Eval α :=
  throw (.fault e)

/-- A result that may be a fault. -/
def ofExcept : Except Fault α → Eval α
  | .ok a => pure a
  | .error e => fail e

/-- Ends by returning a value. -/
def returning (v : Value) : Eval α :=
  throw (.returned v)

/-- The value of a name; a name that the map lacks is a fault. -/
def lookup (name : String) : Eval Value := do
  match Scope.get? (← get).bindings name with
  | some v => return v
  | none => fail (.undefined name)

/-- Declares a name in the current scope. -/
def declare (name : String) (v : Value) : Eval Unit := do
  set (← ofExcept ((← get).declare name v))

/-- A function over the map in force. -/
def makeFunction (params : List String) (body : Block) : Eval Value := do
  return .function params body (← get).bindings

/-- Runs an evaluation on a copy of a map, and puts the present frame back however it ends. -/
def onCopy (m : Scope Value) (x : Eval α) : Eval α := ExceptT.mk do
  let caller ← get
  set (Frame.start m)
  let r ← x.run
  set caller
  return r

/-- Takes a returned value as the result. -/
def landing (x : Eval Value) : Eval Value :=
  tryCatch x fun
    | .returned v => pure v
    | .fault e => fail e

mutual

/-- The value of an expression. -/
def expr : Nat → Expr → Eval Value
  | 0, _ => tooDeep
  | depth + 1, e => do
    match e with
    | .ident name => lookup name
    | .int n => return .data (.int n) Value.Kind.noConfusion
    | .str s => return .data (.str s) Value.Kind.noConfusion
    | .bool b => return .data (.bool b) Value.Kind.noConfusion
    | .unary op operand =>
      let v ← expr depth operand
      ofExcept (Value.ofOperator (op.apply v.outline) (op.apply_isOperatorResult _))
    | .binary op left right =>
      let v ← expr depth left
      let w ← expr depth right
      ofExcept (Value.ofOperator (op.apply v.outline w.outline) (op.apply_isOperatorResult _ _))
    | .cond condition consequence alternative =>
      match (← expr depth condition).outline, alternative with
      | .bool true, _ => block depth consequence
      | .bool false, some alternative => block depth alternative
      | .bool false, none => return .null
      | v, _ => fail (.notBoolean v.kind)
    | .fn params body => makeFunction params body
    | .call callee args =>
      match ← expr depth callee with
      | .function params body captured =>
        let vs ← exprs depth args
        call depth params body captured vs
      | .data v _ => fail (.notCallable v.kind)

/-- The values of several expressions. -/
def exprs : Nat → List Expr → Eval (List Value)
  | 0, _ => tooDeep
  | _ + 1, [] => return []
  | depth + 1, e :: es => do
    let v ← expr depth e
    let vs ← exprs depth es
    return v :: vs

/-- The value of a statement: the value it binds, or that of its expression. -/
def stmt : Nat → Stmt → Eval Value
  | 0, _ => tooDeep
  | depth + 1, s => do
    match s with
    | .bind name value =>
      let v ← expr depth value
      declare name v
      return v
    | .ret value =>
      let v ← expr depth value
      returning v
    | .expr value => expr depth value

/-- The value of the last of several statements, or `v` if there is none. -/
def stmts : Nat → Value → List Stmt → Eval Value
  | 0, _, _ => tooDeep
  | _ + 1, v, [] => return v
  | depth + 1, _, s :: ss => do
    let v ← stmt depth s
    stmts depth v ss

/-- The value of a block, which is a scope of its own on a copy of the map in force. -/
def block : Nat → Block → Eval Value
  | 0, _ => tooDeep
  | depth + 1, b => do onCopy (← get).bindings (stmts depth .null b)

/--
The value of a function's body where the parameters are bound to the arguments. The parameters are
a scope on a copy of the captured map, and the body is one on a copy of what results.
-/
def call : Nat → List String → Block → Scope Value → List Value → Eval Value
  | 0, _, _, _, _ => tooDeep
  | depth + 1, params, body, captured, args => do
    if params.length = args.length then
      let f ← ofExcept ((Frame.start captured).declareAll (params.zip args))
      onCopy f.bindings (landing (block depth body))
    else
      fail (.arity params.length args.length)

end

end Eval

/--
Executes a program as a scope on a copy of a map. A fault leaves the map alone; otherwise the map
is the one at the program's end, which the bindings of its own statements have overridden.
-/
def execute (depth : Nat) (p : Program) (m : Scope Value) :
    Option (Except Fault Value × Scope Value) :=
  ((Eval.stmts depth .null p).runIn (.start m)).map fun
    | (.ok v, f) => (.ok v, f.bindings)
    | (.error (.returned v), f) => (.ok v, f.bindings)
    | (.error (.fault e), _) => (.error e, m)

end Monkey.Lexical

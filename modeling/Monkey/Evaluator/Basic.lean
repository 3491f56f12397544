import Monkey.Value.Operator

/-! # Evaluation as a computation

An evaluation reads and changes a session: the environment, and the next
function identity. It ends with a value or abruptly, by a `return` on its way
out or by a fault, and the session is kept in either case. Recursive
evaluations carry a depth, and a third outcome says that it was exceeded.
-/

namespace Monkey

/-- What lasts from one evaluation to the next. -/
structure Session where
  /-- The bindings in force. -/
  env : Environment Value
  /-- The identity of the next function; it only ever grows. -/
  nextId : Nat

/-- Why an evaluation ended before its last step. -/
inductive Abrupt
  /-- A `return` that has not reached its function or program yet. -/
  | returned (v : Value)
  | fault (e : Fault)

/-- How an evaluation ended. -/
abbrev Outcome := Except Abrupt Value

/-- A computation over a session. The outer `Option` is `none` when a depth was exceeded. -/
abbrev Eval (α : Type) := ExceptT Abrupt (StateT Session Option) α

namespace Eval

variable {α : Type}

/-- Runs an evaluation in a session. -/
def runIn (x : Eval α) (s : Session) : Option (Except Abrupt α × Session) :=
  StateT.run (ExceptT.run x) s

/-- The outcome of an evaluation that is nested too deeply. -/
def tooDeep : Eval α :=
  ExceptT.mk (StateT.lift none)

/-- Ends with a fault. -/
def fail (e : Fault) : Eval α :=
  throw (.fault e)

/-- A result that may be a fault. -/
def ofExcept : Except Fault α → Eval α
  | .ok a => pure a
  | .error e => fail e

/-- Ends by returning a value. -/
def returning (v : Value) : Eval α :=
  throw (.returned v)

/-- Changes the environment. -/
def onEnvironment (f : Environment Value → Environment Value) : Eval Unit :=
  modify fun s => { s with env := f s.env }

/-- The value of a name. -/
def lookup (name : String) : Eval Value := do
  ofExcept ((← get).env.get name)

/-- Binds a name in the innermost scope. -/
def define (name : String) (v : Value) : Eval Unit := do
  let s ← get
  let env ← ofExcept (s.env.define name v)
  set { s with env }

/-- A function over the environment in force, with a new identity. -/
def makeFunction (params : List String) (body : Block) : Eval Value := do
  let s ← get
  set { s with nextId := s.nextId + 1 }
  return .function s.nextId params body s.env

/-- Runs an evaluation in a new scope, which is left however the evaluation ends. -/
def inScope (x : Eval α) : Eval α := ExceptT.mk do
  modify fun s => { s with env := s.env.enter }
  let r ← x.run
  modify fun s => { s with env := s.env.exit }
  return r

/-- Runs an evaluation in another environment, and puts the present one back however it ends. -/
def within (env : Environment Value) (x : Eval α) : Eval α := ExceptT.mk do
  let caller ← get
  set { caller with env }
  let r ← x.run
  modify fun s => { s with env := caller.env }
  return r

/-- Takes a returned value as the result. -/
def landing (x : Eval Value) : Eval Value :=
  tryCatch x fun
    | .returned v => pure v
    | .fault e => fail e

/-- Runs an evaluation in a new scope, and moves its bindings outwards unless there is a fault. -/
def committing (x : Eval α) : Eval α := ExceptT.mk do
  modify fun s => { s with env := s.env.enter }
  let r ← x.run
  match r with
  | .error (.fault _) => return r
  | _ =>
    modify fun s => { s with env := s.env.commit }
    return r

/-! ## How the combinators run -/

variable {β : Type}

@[simp] theorem runIn_pure (a : α) (s : Session) : (pure a : Eval α).runIn s = some (.ok a, s) :=
  rfl

@[simp] theorem runIn_throw (e : Abrupt) (s : Session) :
    (throw e : Eval α).runIn s = some (.error e, s) := rfl

@[simp] theorem runIn_tooDeep (s : Session) : (tooDeep : Eval α).runIn s = none := rfl

@[simp] theorem runIn_fail (e : Fault) (s : Session) :
    (fail e : Eval α).runIn s = some (.error (.fault e), s) := rfl

@[simp] theorem runIn_returning (v : Value) (s : Session) :
    (returning v : Eval α).runIn s = some (.error (.returned v), s) := rfl

/-- A sequence goes on from the session of its first part, unless that ends abruptly. -/
theorem runIn_bind (x : Eval α) (f : α → Eval β) (s : Session) :
    (x >>= f).runIn s = (x.runIn s).bind fun
      | (.ok a, t) => (f a).runIn t
      | (.error e, t) => some (.error e, t) := by
  simp only [runIn, ExceptT.run_bind, StateT.run_bind, Option.bind_eq_bind]
  congr 1
  funext ⟨r, t⟩
  cases r <;> rfl

theorem runIn_ofExcept (r : Except Fault α) (s : Session) :
    (ofExcept r).runIn s = some (r.mapError .fault, s) := by
  cases r <;> rfl

theorem runIn_lookup (name : String) (s : Session) :
    (lookup name).runIn s = some ((s.env.get name).mapError .fault, s) :=
  runIn_ofExcept (s.env.get name) s

theorem runIn_define (name : String) (v : Value) (s : Session) :
    (define name v).runIn s =
      match s.env.define name v with
      | .ok env => some (.ok (), { s with env })
      | .error e => some (.error (.fault e), s) := by
  change (ofExcept (s.env.define name v) >>= fun env => set { s with env } : Eval Unit).runIn s = _
  rw [runIn_bind, runIn_ofExcept]
  cases s.env.define name v <;> rfl

theorem runIn_makeFunction (params : List String) (body : Block) (s : Session) :
    (makeFunction params body).runIn s =
      some (.ok (.function s.nextId params body s.env), { s with nextId := s.nextId + 1 }) := rfl

theorem runIn_inScope (x : Eval α) (s : Session) :
    (inScope x).runIn s =
      (x.runIn { s with env := s.env.enter }).map fun (r, t) =>
        (r, { t with env := t.env.exit }) := by
  change ((x.runIn { s with env := s.env.enter }).bind _) = _
  cases x.runIn { s with env := s.env.enter } <;> rfl

theorem runIn_within (env : Environment Value) (x : Eval α) (s : Session) :
    (within env x).runIn s =
      (x.runIn { s with env }).map fun (r, t) => (r, { t with env := s.env }) := by
  change ((x.runIn { s with env }).bind _) = _
  cases x.runIn { s with env } <;> rfl

theorem runIn_landing (x : Eval Value) (s : Session) :
    (landing x).runIn s =
      (x.runIn s).map fun
        | (.error (.returned v), t) => (.ok v, t)
        | (r, t) => (r, t) := by
  change ((x.runIn s).bind _) = _
  rcases x.runIn s with _ | ⟨(_ | _) | _, _⟩ <;> rfl

theorem runIn_committing (x : Eval α) (s : Session) :
    (committing x).runIn s =
      (x.runIn { s with env := s.env.enter }).map fun
        | (.error (.fault e), t) => (.error (.fault e), t)
        | (r, t) => (r, { t with env := t.env.commit }) := by
  change ((x.runIn { s with env := s.env.enter }).bind _) = _
  rcases x.runIn { s with env := s.env.enter } with _ | ⟨(_ | _) | _, _⟩ <;> rfl

end Eval

end Monkey

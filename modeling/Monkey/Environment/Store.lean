import Monkey.Environment.Basic

/-! # Named environments

A store keeps environments under names. A step works on one of them and gives
a reply; only `snapshot` and `enclosed` write to another name, where they put a
copy. The copy is a value of its own, so no later step changes both.
-/

namespace Monkey

/-- What can be done with an environment. -/
inductive Environment.Step (α : Type)
  | define (name : String) (value : α)
  | get (name : String)
  | binds (name : String)
  | enter
  | exit
  | commit
  /-- Replaces the environment by an empty one. -/
  | clear
  /-- Stores a copy under another name. -/
  | snapshot (target : String)
  /-- Stores a copy with a new scope inside under another name. -/
  | enclosed (target : String)
  deriving Repr

/-- What a step answers. -/
inductive Environment.Reply (α : Type)
  | done
  | value (v : α)
  | found (b : Bool)
  | fault (e : Fault)
  deriving Repr

/-- The reply to a step, and the environment after it. -/
def Environment.perform {α : Type} (e : Environment α) :
    Environment.Step α → Environment.Reply α × Environment α
  | .define name v =>
    match e.define name v with
    | .ok e => (.done, e)
    | .error fault => (.fault fault, e)
  | .get name =>
    match e.get name with
    | .ok v => (.value v, e)
    | .error fault => (.fault fault, e)
  | .binds name => (.found (e.binds name), e)
  | .enter => (.done, e.enter)
  | .exit => (.done, e.exit)
  | .commit => (.done, e.commit)
  | .clear => (.done, .empty)
  | .snapshot _ | .enclosed _ => (.done, e)

/-- The copy of an environment that a step stores, and the name it stores it under. -/
def Environment.copy? {α : Type} (e : Environment α) :
    Environment.Step α → Option (String × Environment α)
  | .snapshot target => some (target, e)
  | .enclosed target => some (target, e.enter)
  | _ => none

@[simp] theorem Environment.copy?_perform {α : Type} (e : Environment α)
    (step : Environment.Step α) : (e.perform step).2.copy? step = e.copy? step := by
  cases step <;> rfl

/-- Environments under names. -/
abbrev Store (α : Type) := String → Option (Environment α)

namespace Store

variable {α : Type}

/-- One empty environment called `main`. -/
def initial : Store α :=
  fun name => if name = "main" then some .empty else none

/-- Puts an environment under a name, in place of the one there. -/
def put (s : Store α) (name : String) (e : Environment α) : Store α :=
  fun other => if other = name then some e else s other

/-- What a step on a store answers: a reply, and the depth of the environment it worked on. -/
structure Answer (α : Type) where
  reply : Environment.Reply α
  depth : Nat
  deriving Repr

/-- Performs a step on the environment `on`, if there is one. -/
def perform? (s : Store α) (on : String) (step : Environment.Step α) :
    Option (Answer α × Store α) := do
  let before ← s on
  let (reply, e) := before.perform step
  let s := s.put on e
  let s :=
    match before.copy? step with
    | some (target, copy) => s.put target copy
    | none => s
  return (⟨reply, e.depth⟩, s)

theorem put_self (s : Store α) (name : String) (e : Environment α) :
    s.put name e name = some e := by
  simp [put]

theorem put_of_ne (s : Store α) {name other : String} (e : Environment α) (h : other ≠ name) :
    s.put name e other = s other := by
  simp [put, h]

end Store

end Monkey

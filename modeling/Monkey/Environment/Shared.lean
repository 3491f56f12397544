import Monkey.Environment.Store

/-! # Environments that share scopes

Here the scopes of all environments stand on one heap, and an environment is the
address of its innermost scope. Copies share scopes instead of doubling them. A
scope counts its owners, which are the environments it is the innermost scope of
and the scopes right inside it: a scope with a single owner is changed in place,
one with several is copied first, and one that has lost its last owner is freed.
-/

namespace Monkey

/-- A scope on a heap. -/
structure Heap.Cell (α : Type) where
  bindings : Scope α
  /-- The address of the scope around it. -/
  parent : Option Nat
  /-- How many environments and scopes hold on to it. -/
  owners : Nat
  deriving Repr

/-- Scopes by their addresses. A scope that was freed leaves its place empty. -/
abbrev Heap (α : Type) := List (Option (Heap.Cell α))

namespace Heap

variable {α : Type}

/-- The scope at an address. -/
def cell? (h : Heap α) (a : Nat) : Option (Cell α) :=
  h[a]?.join

/-- The address of the scope around a scope. -/
def parent? (h : Heap α) (a : Nat) : Option Nat :=
  (h.cell? a).bind (·.parent)

/-- The bindings of a scope. -/
def bindings (h : Heap α) (a : Nat) : Scope α :=
  ((h.cell? a).map (·.bindings)).getD []

/-- Changes the scope at an address. -/
def modify (h : Heap α) (a : Nat) (f : Cell α → Cell α) : Heap α :=
  match h.cell? a with
  | some c => h.set a (some (f c))
  | none => h

/-- Changes the bindings of a scope in place. -/
def rebind (h : Heap α) (a : Nat) (f : Scope α → Scope α) : Heap α :=
  h.modify a fun c => { c with bindings := f c.bindings }

/-- Gives a scope one more owner. -/
def retain (h : Heap α) (a : Nat) : Heap α :=
  h.modify a fun c => { c with owners := c.owners + 1 }

/--
Takes one owner from a scope. Without its last owner the scope is freed, and the scope around it,
which is older, loses an owner too.
-/
def release (h : Heap α) (a : Nat) : Heap α :=
  match h.cell? a with
  | none => h
  | some c =>
    if 1 < c.owners then
      h.modify a fun c => { c with owners := c.owners - 1 }
    else
      match c.parent with
      | none => h.set a none
      | some p => if p < a then release (h.set a none) p else h.set a none
termination_by a

/-- Puts a scope with one owner on the heap. The scope inside `parent` takes over its owner. -/
def allocate (h : Heap α) (bindings : Scope α) (parent : Option Nat) : Heap α × Nat :=
  (h ++ [some ⟨bindings, parent, 1⟩], h.length)

/-- Makes sure that an owner of a scope is the only one: it gets a copy if there are others. -/
def makeUnique (h : Heap α) (a : Nat) : Heap α × Nat :=
  match h.cell? a with
  | none => (h, a)
  | some c =>
    if c.owners = 1 then
      (h, a)
    else
      let (h, b) := (c.parent.elim h h.retain).allocate c.bindings c.parent
      (h.release a, b)

/--
Takes one owner from a scope, and its bindings with it. A sole owner takes them out of the scope,
which goes; otherwise they are copied.
-/
def take (h : Heap α) (a : Nat) : Scope α × Heap α :=
  match h.cell? a with
  | none => ([], h)
  | some c =>
    if c.owners = 1 then
      (c.bindings, (h.rebind a fun _ => []).release a)
    else
      (c.bindings, h.release a)

/-- The bindings of a scope and of those around it, from the inside out. -/
def scopes (h : Heap α) (a : Nat) : List (Scope α) :=
  match h.cell? a with
  | none => []
  | some c =>
    c.bindings :: match c.parent with
      | none => []
      | some p => if p < a then scopes h p else []
termination_by a

/-! An environment is the address of its innermost scope, of which it is an owner. -/

/-- The value of a name in the innermost scope that binds it. -/
def get? (h : Heap α) (a : Nat) (name : String) : Option α :=
  (h.scopes a).findSome? (·.get? name)

/-- The number of scopes. -/
def depth (h : Heap α) (a : Nat) : Nat :=
  (h.scopes a).length

/-- Another environment, with a new scope inside this one. -/
def enclosed (h : Heap α) (a : Nat) : Heap α × Nat :=
  (h.retain a).allocate [] (some a)

/-- Enters a new scope. -/
def enter (h : Heap α) (a : Nat) : Heap α × Nat :=
  let (h, b) := h.enclosed a
  (h.release a, b)

/-- Leaves the innermost scope; the last scope stays. -/
def exit (h : Heap α) (a : Nat) : Heap α × Nat :=
  match h.parent? a with
  | none => (h, a)
  | some p => ((h.retain p).release a, p)

/-- Binds a name in the innermost scope; a name bound there already is a fault. -/
def define (h : Heap α) (a : Nat) (name : String) (v : α) : Except Fault (Heap α × Nat) :=
  if Scope.binds (h.bindings a) name then
    .error (.duplicate name)
  else
    let (h, b) := h.makeUnique a
    .ok (h.rebind b ((name, v) :: ·), b)

/-- Moves the innermost bindings into the next scope, over those of the same names there. -/
def commit (h : Heap α) (a : Nat) : Heap α × Nat :=
  match h.parent? a with
  | none => (h, a)
  | some p =>
    let (new, h) := (h.retain p).take a
    if new.isEmpty then
      (h, p)
    else
      let (h, b) := h.makeUnique p
      (h.rebind b new.override, b)

/-- The reply to a step, the heap after it, and the address of the environment there. -/
def perform (h : Heap α) (a : Nat) : Environment.Step α → Environment.Reply α × Heap α × Nat
  | .define name v =>
    match h.define a name v with
    | .ok result => (.done, result)
    | .error fault => (.fault fault, h, a)
  | .get name =>
    match h.get? a name with
    | some v => (.value v, h, a)
    | none => (.fault (.undefined name), h, a)
  | .binds name => (.found (h.get? a name).isSome, h, a)
  | .enter => (.done, h.enter a)
  | .exit => (.done, h.exit a)
  | .commit => (.done, h.commit a)
  | .clear =>
    let (h, b) := h.allocate [] none
    (.done, h.release a, b)
  | .snapshot _ | .enclosed _ => (.done, h, a)

/-- The copy of an environment that a step stores, and the name it stores it under. -/
def copy? (h : Heap α) (a : Nat) : Environment.Step α → Option (String × Heap α × Nat)
  | .snapshot target => some (target, h.retain a, a)
  | .enclosed target => some (target, h.enclosed a)
  | _ => none

end Heap

/-- Environments under names that share a heap of scopes. -/
structure SharedStore (α : Type) where
  heap : Heap α
  /-- The address of the innermost scope of each environment. -/
  heads : Scope Nat
  deriving Repr

namespace SharedStore

variable {α : Type}

/-- One empty environment called `main`. -/
def initial : SharedStore α :=
  ⟨[some ⟨[], none, 1⟩], [("main", 0)]⟩

/-- Puts an environment on the heap `h` under a name; the one there before is given up. -/
def put (s : SharedStore α) (name : String) (h : Heap α) (a : Nat) : SharedStore α where
  heap := (s.heads.get? name).elim h h.release
  heads := Scope.override [(name, a)] s.heads

/-- Performs a step on the environment `on`, if there is one. -/
def perform? (s : SharedStore α) (on : String) (step : Environment.Step α) :
    Option (Store.Answer α × SharedStore α) := do
  let a ← Scope.get? s.heads on
  let (reply, h, b) := s.heap.perform a step
  let answer : Store.Answer α := ⟨reply, h.depth b⟩
  let s : SharedStore α := ⟨h, Scope.override [(on, b)] s.heads⟩
  match h.copy? b step with
  | some (target, h, c) => return (answer, s.put target h c)
  | none => return (answer, s)

end SharedStore

end Monkey

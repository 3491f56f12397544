import Mathlib.Data.Finmap
import Monkey.Environment.Store

/-! # Environments as stacks of finite maps

The reference for named environments: each of them is a non-empty list of finite
maps, and owns that list alone. An environment represents the stack of the maps
that its scopes denote, and the two give the same answers.
-/

namespace Monkey

variable {α : Type}

/-- A non-empty list of finite maps, innermost first. -/
structure Stack (α : Type) where
  top : Finmap fun _ : String => α
  below : List (Finmap fun _ : String => α)

namespace Stack

/-- One empty map. -/
def empty : Stack α := ⟨∅, []⟩

/-- The number of maps. -/
def depth (s : Stack α) : Nat :=
  s.below.length + 1

/-- The value of a name in the innermost map that has it. -/
def get? (s : Stack α) (name : String) : Option α :=
  (s.top :: s.below).findSome? (·.lookup name)

/-- The stack with an empty map on top. -/
def push (s : Stack α) : Stack α :=
  ⟨∅, s.top :: s.below⟩

/-- The stack without its top, unless that is all there is. -/
def pop (s : Stack α) : Stack α :=
  match s.below with
  | [] => s
  | m :: ms => ⟨m, ms⟩

/-- The stack where the top has been moved over the map below it, unless there is none. -/
def merge (s : Stack α) : Stack α :=
  match s.below with
  | [] => s
  | m :: ms => ⟨s.top ∪ m, ms⟩

/-- The reply to a step, and the stack after it. -/
def perform (s : Stack α) : Environment.Step α → Environment.Reply α × Stack α
  | .define name v =>
    if name ∈ s.top then (.fault (.duplicate name), s) else (.done, ⟨s.top.insert name v, s.below⟩)
  | .get name =>
    match s.get? name with
    | some v => (.value v, s)
    | none => (.fault (.undefined name), s)
  | .binds name => (.found (s.get? name).isSome, s)
  | .enter => (.done, s.push)
  | .exit => (.done, s.pop)
  | .commit => (.done, s.merge)
  | .clear => (.done, empty)
  | .snapshot _ | .enclosed _ => (.done, s)

/-- The stack that a step stores under another name, and that name. -/
def copy? (s : Stack α) : Environment.Step α → Option (String × Stack α)
  | .snapshot target => some (target, s)
  | .enclosed target => some (target, s.push)
  | _ => none

end Stack

/-- Stacks under names. -/
abbrev Stacks (α : Type) := String → Option (Stack α)

namespace Stacks

/-- One empty stack called `main`. -/
def initial : Stacks α :=
  fun name => if name = "main" then some .empty else none

/-- Puts a stack under a name, in place of the one there. -/
def put (t : Stacks α) (name : String) (s : Stack α) : Stacks α :=
  fun other => if other = name then some s else t other

/-- Puts the copy that a step makes of a stack under its name. -/
def putCopy (t : Stacks α) (s : Stack α) (step : Environment.Step α) : Stacks α :=
  match s.copy? step with
  | some (target, copy) => t.put target copy
  | none => t

/-- Performs a step on the stack `on`, if there is one. -/
def perform? (t : Stacks α) (on : String) (step : Environment.Step α) :
    Option (Store.Answer α × Stacks α) :=
  (t on).map fun s =>
    let (reply, s') := s.perform step
    (⟨reply, s'.depth⟩, (t.put on s').putCopy s step)

end Stacks

/-! ## The stack of an environment -/

/-- The map that a scope denotes. -/
def Scope.toFinmap (s : Scope α) : Finmap fun _ : String => α :=
  List.toFinmap (s.map fun b => ⟨b.1, b.2⟩)

namespace Scope

@[simp] theorem toFinmap_cons (name : String) (v : α) (s : Scope α) :
    toFinmap ((name, v) :: s) = s.toFinmap.insert name v := by
  unfold toFinmap
  rw [List.map_cons, Finmap.toFinmap_cons]

@[simp] theorem lookup_toFinmap (s : Scope α) (name : String) :
    s.toFinmap.lookup name = s.get? name := by
  induction s with
  | nil => rfl
  | cons b s ih =>
    obtain ⟨x, v⟩ := b
    rw [get?_cons, ← ih, toFinmap_cons]
    by_cases hx : name = x
    · subst hx
      rw [Finmap.lookup_insert, if_pos rfl]
    · rw [Finmap.lookup_insert_of_ne _ hx, if_neg hx]

theorem mem_toFinmap_iff {s : Scope α} {name : String} : name ∈ s.toFinmap ↔ s.binds name := by
  rw [← Finmap.lookup_isSome, lookup_toFinmap, binds]

@[simp] theorem toFinmap_override (new old : Scope α) :
    (new.override old).toFinmap = new.toFinmap ∪ old.toFinmap := by
  refine Finmap.ext_lookup fun name => ?_
  rw [lookup_toFinmap, get?_override]
  by_cases hnew : name ∈ new.toFinmap
  · obtain ⟨v, hv⟩ := Finmap.mem_iff.1 hnew
    rw [Finmap.lookup_union_left hnew, hv, ← lookup_toFinmap, hv, Option.some_or]
  · have hnone := Finmap.lookup_eq_none.2 hnew
    rw [Finmap.lookup_union_right hnew, ← lookup_toFinmap, hnone, Option.none_or, lookup_toFinmap]

end Scope

namespace Environment

/-- The stack of the maps that the scopes of an environment denote. -/
def toStack (e : Environment α) : Stack α :=
  ⟨Scope.toFinmap e.current, e.outer.map Scope.toFinmap⟩

theorem depth_toStack (e : Environment α) : e.toStack.depth = e.depth := by
  simp [toStack, Stack.depth, depth, scopes]

theorem get?_toStack (e : Environment α) (name : String) : e.toStack.get? name = e.get? name := by
  have hscopes : e.toStack.top :: e.toStack.below = e.scopes.map Scope.toFinmap := rfl
  rw [Stack.get?, hscopes, List.findSome?_map]
  unfold get?
  congr 1
  exact funext fun s => Scope.lookup_toFinmap s name

/-- A step gets the same reply from the stack, and leaves the stack of the environment after it. -/
theorem perform_toStack (e : Environment α) (step : Step α) :
    e.toStack.perform step = ((e.perform step).1, (e.perform step).2.toStack) := by
  cases step with
  | define name v =>
    simp only [Stack.perform, perform, define, toStack, Scope.mem_toFinmap_iff]
    split <;> simp
  | get name =>
    simp only [Stack.perform, perform, get, get?_toStack]
    cases e.get? name <;> rfl
  | binds name => simp only [Stack.perform, perform, binds, get?_toStack]
  | enter => rfl
  | exit =>
    obtain ⟨current, outer⟩ := e
    cases outer <;> rfl
  | commit =>
    obtain ⟨current, outer⟩ := e
    cases outer with
    | nil => rfl
    | cons s ss => simp [Stack.perform, perform, toStack, Stack.merge, commit]
  | clear => rfl
  | snapshot target => rfl
  | enclosed target => rfl

theorem copy?_toStack (e : Environment α) (step : Step α) :
    e.toStack.copy? step = (e.copy? step).map fun c => (c.1, c.2.toStack) := by
  cases step <;> rfl

end Environment

namespace Store

/-- The stacks of the environments in a store. -/
def toStacks (s : Store α) : Stacks α :=
  fun name => (s name).map (·.toStack)

theorem toStacks_initial : (initial : Store α).toStacks = Stacks.initial := by
  funext name
  unfold toStacks initial Stacks.initial
  split <;> rfl

theorem toStacks_put (s : Store α) (name : String) (e : Environment α) :
    (s.put name e).toStacks = s.toStacks.put name e.toStack := by
  funext other
  unfold toStacks put Stacks.put
  split <;> rfl

/-- A step on a store is a step on its stacks. -/
theorem perform?_toStacks (s : Store α) (on : String) (step : Environment.Step α) :
    s.toStacks.perform? on step = (s.perform? on step).map fun r => (r.1, r.2.toStacks) := by
  unfold Stacks.perform? perform?
  rw [toStacks]
  cases s on with
  | none => rfl
  | some e =>
    simp only [Option.map_some, Environment.perform_toStack, Environment.depth_toStack]
    refine congrArg some (Prod.ext rfl ?_)
    rw [Stacks.putCopy, Environment.copy?_toStack]
    change _ = toStacks _
    cases hcopy : e.copy? step with
    | none => simp [toStacks_put]
    | some c => simp [toStacks_put]

end Store

end Monkey

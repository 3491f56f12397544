import Monkey.Fault

/-! # Environments

A scope binds names to values, each name once. An environment is a chain of
scopes, innermost first, and never empty. A name is looked up in the innermost
scope that binds it, and bound in the innermost scope only.
-/

namespace Monkey

variable {α : Type}

/-- Names with their values. -/
abbrev Scope (α : Type) := List (String × α)

namespace Scope

/-- The value of a name. -/
def get? (s : Scope α) (name : String) : Option α :=
  s.lookup name

/-- Whether a scope binds a name. -/
def binds (s : Scope α) (name : String) : Bool :=
  (s.get? name).isSome

/-- The bindings of `new`, and those of `old` for other names. -/
def override (new old : Scope α) : Scope α :=
  new ++ old.filter fun b => !new.binds b.1

theorem get?_cons (x : String) (v : α) (s : Scope α) (name : String) :
    get? ((x, v) :: s) name = if name = x then some v else s.get? name := by
  by_cases h : name = x
  · subst h
    simp [get?]
  · simp [get?, List.lookup_cons, beq_false_of_ne h, h]

theorem get?_filter_not_binds (new old : Scope α) (name : String) :
    get? (old.filter fun b => !new.binds b.1) name =
      if new.binds name then none else old.get? name := by
  induction old with
  | nil => simp [get?]
  | cons b bs ih =>
    obtain ⟨x, v⟩ := b
    by_cases hx : new.binds x = true
    · rw [List.filter_cons_of_neg (by simpa using hx), ih, get?_cons]
      by_cases hn : name = x
      · simp [hn, hx]
      · simp [hn]
    · rw [List.filter_cons_of_pos (by simpa using hx), get?_cons, get?_cons, ih]
      by_cases hn : name = x
      · simp [hn, hx]
      · simp [hn]

theorem get?_override (new old : Scope α) (name : String) :
    (new.override old).get? name = (new.get? name).or (old.get? name) := by
  have h := get?_filter_not_binds new old name
  unfold get? at h ⊢
  rw [override, List.lookup_append, h]
  cases hn : List.lookup name new <;> simp [binds, get?, hn]

@[simp] theorem override_nil (s : Scope α) : override [] s = s := by
  simp [override, binds, get?]

end Scope

/-- A chain of scopes, innermost first. -/
structure Environment (α : Type) where
  /-- The innermost scope. -/
  current : List (String × α)
  /-- The enclosing scopes, from the inside out. -/
  outer : List (List (String × α))
  deriving Repr

namespace Environment

/-- One scope without bindings. -/
def empty : Environment α := ⟨[], []⟩

/-- All scopes, innermost first. -/
def scopes (e : Environment α) : List (Scope α) :=
  e.current :: e.outer

/-- The number of scopes. -/
def depth (e : Environment α) : Nat :=
  e.scopes.length

/-- The value of a name in the innermost scope that binds it. -/
def get? (e : Environment α) (name : String) : Option α :=
  e.scopes.findSome? (·.get? name)

/-- The value of a name; a name that no scope binds is a fault. -/
def get (e : Environment α) (name : String) : Except Fault α :=
  match e.get? name with
  | some v => .ok v
  | none => .error (.undefined name)

/-- Whether any scope binds a name. -/
def binds (e : Environment α) (name : String) : Bool :=
  (e.get? name).isSome

/-- Binds a name in the innermost scope; a name bound there already is a fault. -/
def define (e : Environment α) (name : String) (v : α) : Except Fault (Environment α) :=
  if Scope.binds e.current name then .error (.duplicate name)
  else .ok { e with current := (name, v) :: e.current }

/-- The environment with a new scope inside. -/
def enter (e : Environment α) : Environment α :=
  ⟨[], e.scopes⟩

/-- The environment without its innermost scope; the last scope stays. -/
def exit (e : Environment α) : Environment α :=
  match e.outer with
  | [] => e
  | s :: ss => ⟨s, ss⟩

/-- Moves the innermost bindings into the next scope, over those of the same names there. -/
def commit (e : Environment α) : Environment α :=
  match e.outer with
  | [] => e
  | s :: ss => ⟨Scope.override e.current s, ss⟩

/-- Binds several names one after the other in the innermost scope. -/
def defineAll (e : Environment α) : List (String × α) → Except Fault (Environment α)
  | [] => .ok e
  | (name, v) :: bs => do (← e.define name v).defineAll bs

@[simp] theorem exit_enter (e : Environment α) : e.enter.exit = e := rfl

@[simp] theorem scopes_enter (e : Environment α) : e.enter.scopes = [] :: e.scopes := rfl

@[simp] theorem depth_enter (e : Environment α) : e.enter.depth = e.depth + 1 := rfl

theorem depth_pos (e : Environment α) : 0 < e.depth :=
  Nat.succ_pos _

theorem depth_exit (e : Environment α) : e.exit.depth = max 1 (e.depth - 1) := by
  obtain ⟨current, outer⟩ := e
  cases outer with
  | nil => rfl
  | cons s ss => simp [exit, depth, scopes]

theorem depth_commit (e : Environment α) : e.commit.depth = max 1 (e.depth - 1) := by
  obtain ⟨current, outer⟩ := e
  cases outer with
  | nil => rfl
  | cons s ss => simp [commit, depth, scopes]

theorem define_eq_ok_iff {e e' : Environment α} {name : String} {v : α} :
    e.define name v = .ok e' ↔
      Scope.binds e.current name = false ∧ e' = ⟨(name, v) :: e.current, e.outer⟩ := by
  unfold define
  split
  · next h => simp [h]
  · next h =>
    rw [Except.ok.injEq]
    exact ⟨fun he => ⟨by simpa using h, he.symm⟩, fun he => he.2.symm⟩

theorem outer_define {e e' : Environment α} {name : String} {v : α}
    (h : e.define name v = .ok e') : e'.outer = e.outer := by
  obtain ⟨-, rfl⟩ := define_eq_ok_iff.1 h
  rfl

theorem depth_define {e e' : Environment α} {name : String} {v : α}
    (h : e.define name v = .ok e') : e'.depth = e.depth := by
  simp [depth, scopes, outer_define h]

/-- A name is first looked up in the innermost scope, and then outside it. -/
theorem get?_mk (s : Scope α) (ss : List (Scope α)) (name : String) :
    get? ⟨s, ss⟩ name = (s.get? name).or (ss.findSome? (·.get? name)) := by
  cases h : s.get? name <;> simp [get?, scopes, h]

@[simp] theorem get?_enter (e : Environment α) (name : String) : e.enter.get? name = e.get? name :=
  get?_mk [] e.scopes name

/-- Committing a scope changes no answer. -/
@[simp] theorem get?_commit (e : Environment α) (name : String) :
    e.commit.get? name = e.get? name := by
  obtain ⟨current, outer⟩ := e
  cases outer with
  | nil => rfl
  | cons s ss =>
    change get? ⟨Scope.override current s, ss⟩ name = get? ⟨current, s :: ss⟩ name
    rw [get?_mk, get?_mk, Scope.get?_override]
    cases hc : Scope.get? current name <;> cases hs : Scope.get? s name <;> simp [hs]

theorem get?_define {e e' : Environment α} {name : String} {v : α}
    (h : e.define name v = .ok e') (other : String) :
    e'.get? other = if other = name then some v else e.get? other := by
  obtain ⟨-, rfl⟩ := define_eq_ok_iff.1 h
  rw [get?_mk, Scope.get?_cons]
  split
  · simp
  · rw [← get?_mk]

theorem define_eq_error {e : Environment α} {name : String} {v : α} {fault : Fault}
    (h : e.define name v = .error fault) : fault = .duplicate name := by
  unfold define at h
  split at h
  · cases h
    rfl
  · simp at h

theorem defineAll_cons_eq_ok_iff {e e' : Environment α} {name : String} {v : α}
    {bs : List (String × α)} :
    e.defineAll ((name, v) :: bs) = .ok e' ↔
      ∃ e₁, e.define name v = .ok e₁ ∧ e₁.defineAll bs = .ok e' := by
  cases h : e.define name v with
  | error fault => simp [defineAll, h, bind, Except.bind]
  | ok e₁ => simp [defineAll, h, bind, Except.bind]

theorem defineAll_eq_error {e : Environment α} {bs : List (String × α)} {fault : Fault}
    (h : e.defineAll bs = .error fault) : ∃ name, fault = .duplicate name := by
  induction bs generalizing e with
  | nil => simp [defineAll] at h
  | cons b bs ih =>
    obtain ⟨name, v⟩ := b
    cases hd : e.define name v with
    | error fault' =>
      have he : fault' = fault := by simpa [defineAll, hd, bind, Except.bind] using h
      exact ⟨name, he ▸ define_eq_error hd⟩
    | ok e₁ => exact ih (e := e₁) (by simpa [defineAll, hd, bind, Except.bind] using h)

end Environment

end Monkey

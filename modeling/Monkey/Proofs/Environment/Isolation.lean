import Monkey.Proofs.Environment.Ownership
import Monkey.Proofs.Environment.Stacks

/-! # Isolation of environments

Environments that share scopes answer as if each owned all of its scopes alone: what
one does to a scope is never seen by another. The first part shows it of a single
step, from the owners of the scopes, and the second of whole sequences of steps.
-/

namespace Monkey

variable {α : Type}

namespace Scope

variable {s : Scope α} {name : String} {v : α}

theorem override_singleton (name : String) (v : α) (s : Scope α) :
    override [(name, v)] s = (name, v) :: s.filter (·.1 != name) := by
  have hbinds (b : String × α) : (!binds [(name, v)] b.1) = (b.1 != name) := by
    rw [binds, get?_cons]
    by_cases hb : b.1 = name <;> simp [hb, get?]
  simp [override, hbinds]

theorem get?_override_singleton (name : String) (v : α) (s : Scope α) (other : String) :
    get? (override [(name, v)] s) other = if other = name then some v else s.get? other := by
  rw [get?_override, get?_cons]
  split
  · rfl
  · simp [get?]

theorem nodup_override_singleton (h : (s.map Prod.fst).Nodup) (name : String) (v : α) :
    ((override [(name, v)] s).map Prod.fst).Nodup := by
  rw [override_singleton, List.map_cons, List.nodup_cons]
  refine ⟨?_, h.sublist (List.filter_sublist.map _)⟩
  simp

theorem mem_of_get? (hv : s.get? name = some v) : (name, v) ∈ s := by
  obtain ⟨l, r, rfl, -⟩ := List.lookup_eq_some_iff.1 hv
  simp

theorem filter_eq_self_of_get? (hv : s.get? name = none) : s.filter (·.1 != name) = s := by
  refine List.filter_eq_self.2 fun b hb => ?_
  rw [bne_comm]
  exact List.lookup_eq_none_iff.1 hv b hb

/-- A scope that binds each name once is one binding and those of the other names. -/
theorem perm_of_get? (h : (s.map Prod.fst).Nodup) (hv : s.get? name = some v) :
    s.Perm ((name, v) :: s.filter (·.1 != name)) := by
  obtain ⟨l, r, rfl, hl⟩ := List.lookup_eq_some_iff.1 hv
  have hmiddle : (l ++ (name, v) :: r).Perm ((name, v) :: (l ++ r)) := List.perm_middle
  have hnotin : name ∉ (l ++ r).map Prod.fst :=
    (List.nodup_cons.1 ((hmiddle.map Prod.fst).nodup_iff.1 h)).1
  have hother : (l ++ r).filter (·.1 != name) = l ++ r := by
    refine List.filter_eq_self.2 fun b hb => bne_iff_ne.2 fun he => hnotin ?_
    exact he ▸ List.mem_map_of_mem hb
  rw [List.filter_append] at hother
  rw [List.filter_append, List.filter_cons_of_neg (by simp), hother]
  exact hmiddle

end Scope

/-! ## Single steps -/

/--
Whether environments that share scopes are those of a store: the heap is in order where they
stand, and each sees its own scopes.
-/
structure SharedStore.Represents (s : SharedStore α) (t : Store α) : Prop where
  nodup : (s.heads.map Prod.fst).Nodup
  owned : s.heap.Owned (s.heads.map Prod.snd)
  sees : ∀ name, (s.heads.get? name).map s.heap.scopes = (t name).map (·.scopes)

namespace SharedStore.Represents

open Heap

variable {s : SharedStore α} {t : Store α} {h : Heap α} {e : Environment α} {a : Nat}
  {on : String}

theorem initial : (SharedStore.initial (α := α)).Represents Store.initial := by
  have howned : Owned ([] : Heap α) ([] : List Nat) :=
    ⟨nofun, by simp [cell?], by simp [cell?]⟩
  have hb := howned.becomes_allocate (s := []) (p := none)
  refine ⟨List.nodup_singleton _, hb.owned, fun name => ?_⟩
  unfold SharedStore.initial Store.initial
  rw [Scope.get?_cons]
  split
  · exact congrArg some hb.scopes
  · rfl

/-- An operation whose result is put under a name leaves the other environments as they are. -/
theorem override (hr : s.Represents t)
    (hb : Becomes s.heap ((s.heads.filter (·.1 != on)).map Prod.snd) (h, a) e.scopes) :
    (⟨h, Scope.override [(on, a)] s.heads⟩ : SharedStore α).Represents (t.put on e) := by
  refine ⟨Scope.nodup_override_singleton hr.nodup on a, ?_, fun name => ?_⟩
  · rw [Scope.override_singleton]
    exact hb.owned
  · rw [Scope.get?_override_singleton]
    split
    · next hn =>
      subst hn
      rw [Store.put_self]
      exact congrArg some hb.scopes
    · next hn =>
      rw [Store.put_of_ne t e hn, ← hr.sees name]
      refine Option.map_congr fun b hget => hb.others b ?_
      have hmem : (name, b) ∈ List.filter (·.1 != on) s.heads :=
        List.mem_filter.2 ⟨Scope.mem_of_get? hget, by simpa using hn⟩
      exact List.mem_map_of_mem hmem

theorem put (hr : s.Represents t) (hb : Becomes s.heap (s.heads.map Prod.snd) (h, a) e.scopes)
    (target : String) : (s.put target h a).Represents (t.put target e) := by
  cases hold : Scope.get? s.heads target with
  | none =>
    simp only [SharedStore.put, hold, Option.elim_none]
    refine hr.override ?_
    rw [Scope.filter_eq_self_of_get? hold]
    exact hb
  | some old =>
    simp only [SharedStore.put, hold, Option.elim_some]
    exact hr.override (hb.perm ((Scope.perm_of_get? hr.nodup hold).map Prod.snd)).release

/-- A step gets the answer it gets from the store, and leaves the environments it leaves there. -/
theorem perform? (hr : s.Represents t) (on : String) (step : Environment.Step α) :
    (s.perform? on step = none ∧ t.perform? on step = none) ∨
      ∃ answer s' t', s.perform? on step = some (answer, s') ∧
        t.perform? on step = some (answer, t') ∧ s'.Represents t' := by
  have hsees := hr.sees on
  unfold SharedStore.perform? Store.perform?
  cases ha : Scope.get? s.heads on with
  | none =>
    rw [ha, Option.map_none, eq_comm, Option.map_eq_none_iff] at hsees
    exact .inl ⟨rfl, by rw [hsees]; rfl⟩
  | some a =>
    rw [ha, Option.map_some, eq_comm, Option.map_eq_some_iff] at hsees
    obtain ⟨e, ht, he⟩ := hsees
    have howned := hr.owned.perm ((Scope.perm_of_get? hr.nodup ha).map Prod.snd)
    obtain ⟨hreply, hb⟩ := becomes_perform howned he.symm step
    have hr' := hr.override hb
    have hdepth : (s.heap.perform a step).2.1.depth (s.heap.perform a step).2.2 =
        (e.perform step).2.depth := by
      rw [Heap.depth, hb.scopes, Environment.depth]
    rw [ht]
    simp only [Option.bind_eq_bind, Option.bind_some, hreply, hdepth]
    obtain ⟨hnone, hnone'⟩ | ⟨target, result, copy, hsome, hsome', hcopy⟩ :=
      copy?_cases hb.owned hb.scopes step
    · rw [Environment.copy?_perform] at hnone'
      rw [hnone, hnone']
      exact .inr ⟨_, _, _, rfl, rfl, hr'⟩
    · rw [Environment.copy?_perform] at hsome'
      rw [hsome, hsome']
      refine .inr ⟨_, _, _, rfl, rfl, hr'.put ?_ target⟩
      rw [Scope.override_singleton]
      exact hcopy

end SharedStore.Represents

/-! ## Sequences of steps -/

namespace Environment

variable {σ τ : Type} {p : σ → String → Step α → Option (Store.Answer α × σ)}
  {q : τ → String → Step α → Option (Store.Answer α × τ)} {R : σ → τ → Prop} {s : σ} {t : τ}

/--
The answers to steps, one after the other, each with the name of the environment that it is from.
A step on an environment that is not there gets no answer, and changes nothing.
-/
def answers (p : σ → String → Step α → Option (Store.Answer α × σ)) (s : σ) :
    List (String × Step α) → List (String × Option (Store.Answer α))
  | [] => []
  | (on, step) :: steps =>
    match p s on step with
    | some (answer, s) => (on, some answer) :: answers p s steps
    | none => (on, none) :: answers p s steps

/-- The environments after a sequence of steps. -/
def after (p : σ → String → Step α → Option (Store.Answer α × σ)) (s : σ) :
    List (String × Step α) → σ
  | [] => s
  | (on, step) :: steps =>
    match p s on step with
    | some (_, s) => after p s steps
    | none => after p s steps

/-- Whether the steps of one system are those of another, as far as answers go. -/
def Simulates (p : σ → String → Step α → Option (Store.Answer α × σ))
    (q : τ → String → Step α → Option (Store.Answer α × τ)) (R : σ → τ → Prop) : Prop :=
  ∀ s t on step, R s t →
    (p s on step = none ∧ q t on step = none) ∨
      ∃ answer s' t', p s on step = some (answer, s') ∧ q t on step = some (answer, t') ∧ R s' t'

theorem Simulates.answers_eq (hsim : Simulates p q R) (hr : R s t)
    (steps : List (String × Step α)) : answers p s steps = answers q t steps := by
  induction steps generalizing s t with
  | nil => rfl
  | cons step steps ih =>
    obtain ⟨on, step⟩ := step
    obtain ⟨hp, hq⟩ | ⟨answer, s', t', hp, hq, hr'⟩ := hsim s t on step hr
    · simp only [answers, hp, hq, ih hr]
    · simp only [answers, hp, hq, ih hr']

theorem Simulates.after (hsim : Simulates p q R) (hr : R s t) (steps : List (String × Step α)) :
    R (after p s steps) (after q t steps) := by
  induction steps generalizing s t with
  | nil => exact hr
  | cons step steps ih =>
    obtain ⟨on, step⟩ := step
    obtain ⟨hp, hq⟩ | ⟨answer, s', t', hp, hq, hr'⟩ := hsim s t on step hr
    · simp only [Environment.after, hp, hq]
      exact ih hr
    · simp only [Environment.after, hp, hq]
      exact ih hr'

/-- The name that a step stores a copy under. -/
def Step.target? : Step α → Option String
  | .snapshot target | .enclosed target => some target
  | _ => none

/-- Whether the steps copy to the names of a set only what stands under such a name. -/
def Sealed (seen : String → Bool) (steps : List (String × Step α)) : Prop :=
  ∀ on step target, (on, step) ∈ steps → step.target? = some target → seen target → seen on

end Environment

open Environment

/-- A step on a stack writes to its name, and to that of a copy, and to no other. -/
theorem Stacks.perform?_of_ne {t t' : Stacks α} {on : String} {step : Environment.Step α}
    {answer : Store.Answer α} (h : t.perform? on step = some (answer, t')) {name : String}
    (hon : name ≠ on) (htarget : step.target? ≠ some name) : t' name = t name := by
  obtain ⟨s, -, hs⟩ := Option.map_eq_some_iff.1 h
  obtain ⟨-, rfl⟩ := Prod.mk.inj hs
  cases step <;> simp_all [putCopy, Stack.copy?, put, Step.target?, eq_comm]

/-- Stacks that agree under the names of a set agree there after a step on one of them. -/
theorem Stacks.perform?_congr {t u : Stacks α} {seen : String → Bool}
    (hagree : ∀ name, seen name → t name = u name) {on : String} (hon : seen on)
    (step : Environment.Step α) :
    (t.perform? on step = none ∧ u.perform? on step = none) ∨
      ∃ answer t' u', t.perform? on step = some (answer, t') ∧
        u.perform? on step = some (answer, u') ∧ ∀ name, seen name → t' name = u' name := by
  unfold perform?
  rw [hagree on hon]
  cases u on with
  | none => exact .inl ⟨rfl, rfl⟩
  | some s =>
    refine .inr ⟨_, _, _, rfl, rfl, fun name hname => ?_⟩
    cases step <;> simp [putCopy, Stack.copy?, put, hagree name hname]

/-- Steps on other stacks are left out without a change of the answers under a set of names. -/
theorem Stacks.answers_filter {seen : String → Bool} {steps : List (String × Environment.Step α)}
    (hsealed : Sealed seen steps) {t u : Stacks α} (hagree : ∀ name, seen name → t name = u name) :
    (answers Stacks.perform? t steps).filter (seen ·.1) =
      answers Stacks.perform? u (steps.filter (seen ·.1)) := by
  induction steps generalizing t u with
  | nil => rfl
  | cons step steps ih =>
    obtain ⟨on, step⟩ := step
    have hrest : Sealed seen steps := fun on step target hmem =>
      hsealed on step target (List.mem_cons_of_mem _ hmem)
    by_cases hon : seen on = true
    · rw [List.filter_cons (x := (on, step)), if_pos hon]
      obtain ⟨ht, hu⟩ | ⟨answer, t', u', ht, hu, hagree'⟩ := perform?_congr hagree hon step
      · simp only [answers, ht, hu]
        rw [List.filter_cons, if_pos hon, ih hrest hagree]
      · simp only [answers, ht, hu]
        rw [List.filter_cons, if_pos hon, ih hrest hagree']
    · rw [List.filter_cons (x := (on, step)), if_neg hon]
      cases ht : t.perform? on step with
      | none =>
        simp only [answers, ht]
        rw [List.filter_cons, if_neg hon, ih hrest hagree]
      | some r =>
        simp only [answers, ht]
        rw [List.filter_cons, if_neg hon]
        refine ih hrest fun name hname => ?_
        rw [← hagree name hname]
        refine Stacks.perform?_of_ne ht (fun he => hon (he ▸ hname)) fun htarget => ?_
        exact hon (hsealed on step name List.mem_cons_self htarget hname)

theorem Store.simulates_toStacks :
    Simulates (Store.perform? (α := α)) Stacks.perform? fun s t => t = s.toStacks := by
  rintro s _ on step rfl
  rw [Store.perform?_toStacks]
  cases s.perform? on step with
  | none => exact .inl ⟨rfl, rfl⟩
  | some r => exact .inr ⟨r.1, r.2, _, rfl, rfl, rfl⟩

namespace SharedStore

theorem simulates : Simulates (SharedStore.perform? (α := α)) Store.perform? Represents :=
  fun _ _ on step hr => hr.perform? on step

theorem Represents.answers_eq {s : SharedStore α} {t : Store α} (hr : s.Represents t)
    (steps : List (String × Environment.Step α)) :
    answers SharedStore.perform? s steps = answers Stacks.perform? t.toStacks steps :=
  (simulates.answers_eq hr steps).trans (Store.simulates_toStacks.answers_eq rfl steps)

/--
Environments that share scopes give the answers of stacks that share nothing. So from whatever
state, the answers of some of them are the same if the steps on the others are not made.
-/
theorem answers_isolated (history : List (String × Environment.Step α)) :
    answers SharedStore.perform? initial history = answers Stacks.perform? .initial history ∧
      ∀ steps seen, Sealed seen steps →
        (answers SharedStore.perform? (after SharedStore.perform? initial history) steps).filter
            (seen ·.1) =
          answers SharedStore.perform? (after SharedStore.perform? initial history)
            (steps.filter (seen ·.1)) := by
  constructor
  · rw [Represents.initial.answers_eq, Store.toStacks_initial]
  · intro steps seen hsealed
    have hr := simulates.after (Represents.initial (α := α)) history
    rw [hr.answers_eq, hr.answers_eq]
    exact Stacks.answers_filter hsealed fun _ _ => rfl

/-- A snapshot does not have what is bound after it was taken, whether or not that is bound. -/
theorem answers_isolated_snapshot :
    answers SharedStore.perform? initial
        [("main", .define "x" 1), ("main", .snapshot "kept"), ("main", .define "y" 2),
          ("kept", .binds "y")] =
      [("main", some ⟨.done, 1⟩), ("main", some ⟨.done, 1⟩), ("main", some ⟨.done, 1⟩),
        ("kept", some ⟨.found false, 1⟩)] ∧
      (answers SharedStore.perform?
          (after SharedStore.perform? initial [("main", .snapshot "kept")])
          [("main", .define "y" 2), ("kept", .binds "y")]).filter (·.1 == "kept") =
        answers SharedStore.perform?
          (after SharedStore.perform? initial [("main", .snapshot "kept")])
          [("kept", .binds "y")] := by
  refine ⟨(answers_isolated _).1.trans rfl, (answers_isolated _).2 _ (· == "kept") ?_⟩
  intro on step target hmem htarget
  simp at hmem
  obtain ⟨rfl, rfl⟩ | ⟨rfl, rfl⟩ := hmem <;> cases htarget

end SharedStore

end Monkey

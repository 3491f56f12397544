import Monkey.Session

/-! # Runs of sessions

A run is a sequence of actions, each begun in the session that the one before it
left, and each allowed where it begins. What holds of a session at the start and
is kept by every allowed action holds to the end of every run.
-/

namespace Monkey.Session

/-! ## One action -/

/-- An action that only evaluates something ends as this does. -/
theorem runIn_of_map {x : Eval Value} {s t : Session} {o : Option Outcome}
    (h : (x.runIn s).map (Prod.map some id) = some (o, t)) :
    ∃ r, o = some r ∧ x.runIn s = some (r, t) := by
  obtain ⟨⟨r, u⟩, hrun, hend⟩ := Option.map_eq_some_iff.1 h
  cases hend
  exact ⟨r, rfl, hrun⟩

/-- An executed program gives or returns a value, or its fault takes back what it bound. -/
theorem runIn_of_execute {n : Nat} {s t : Session} {p : Program} {o : Option Outcome}
    (h : s.perform n (.execute p) = some (o, t)) :
    (∃ r v, (Eval.program n p).runIn s = some (r, t) ∧ (r = .ok v ∨ r = .error (.returned v)) ∧
      o = some (.ok v)) ∨
    ∃ e u, (Eval.program n p).runIn s = some (.error (.fault e), u) ∧
      o = some (.error (.fault e)) ∧ t = { u with env := s.env } := by
  obtain ⟨⟨r, u⟩, hexecute, hend⟩ := Option.map_eq_some_iff.1 h
  obtain ⟨⟨r', u'⟩, hrun, hend'⟩ := Option.map_eq_some_iff.1 hexecute
  rcases r' with (v | e) | v <;> cases hend' <;> cases hend
  · exact .inl ⟨_, v, hrun, .inr rfl, rfl⟩
  · exact .inr ⟨e, u', hrun, rfl, rfl⟩
  · exact .inl ⟨_, v, hrun, .inl rfl, rfl⟩

/-! ## Many actions -/

/--
The outcomes of a run from one session to another in which every action is allowed where it
begins. The depth may differ from one action to the next.
-/
inductive Run (allowed : Session → Action → Prop) :
    Session → List (Option Outcome) → Session → Prop
  | nil (s : Session) : Run allowed s [] s
  | cons {s t u : Session} {a : Action} {depth : Nat} {o : Option Outcome}
      {os : List (Option Outcome)} : allowed s a → s.perform depth a = some (o, t) →
      Run allowed t os u → Run allowed s (o :: os) u

variable {allowed : Session → Action → Prop} {s t : Session} {os : List (Option Outcome)}

/-- An invariant of every allowed action is one of every run, and vouches for every outcome. -/
theorem Run.invariant {Inv : Session → Prop} {Good : Option Outcome → Prop}
    (hstep : ∀ s a depth o t, Inv s → allowed s a → s.perform depth a = some (o, t) →
      Inv t ∧ Good o)
    (h : Run allowed s os t) (hs : Inv s) : Inv t ∧ ∀ o ∈ os, Good o := by
  induction h with
  | nil s => exact ⟨hs, fun o ho => by simp at ho⟩
  | cons ha hp _ ih =>
    obtain ⟨hinv, hgood⟩ := hstep _ _ _ _ _ hs ha hp
    obtain ⟨hend, hrest⟩ := ih hinv
    refine ⟨hend, fun o ho => ?_⟩
    rcases List.mem_cons.1 ho with rfl | ho
    · exact hgood
    · exact hrest o ho

end Monkey.Session

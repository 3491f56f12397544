import Monkey.Proofs.Lexical.Simulation
import Monkey.Proofs.Session.Transcript

/-! # Scope chains implement plain lexical scoping

Sessions over scope chains, with scopes entered, left and committed and with
environments taken back, show what the flat maps of plain lexical scoping show,
whatever programs are executed and wherever the session is reset.
-/

namespace Monkey

namespace Lexical

/-- What an execution shows: a fault, or the kind and the text of a value. -/
def shown (r : Except Fault Value) : Except Fault (Value.Kind × String) :=
  Session.shown (r.map Value.outline)

/-- How the map between programs answers a request, at whatever depth its evaluation ends. -/
def Answers (m : Scope Value) : Request → Answer → Scope Value → Prop
  | .execute p, a, m' => ∃ depth r, execute depth p m = some (r, m') ∧ a = some (shown r)
  | .reset, a, m' => a = none ∧ m' = []

/-- Ends of two executions that show the same and leave a session and a map that match. -/
structure SameEnd (o : Except Fault Monkey.Value × Session)
    (o' : Except Fault Value × Scope Value) : Prop where
  shown : Session.shown o.1 = shown o'.1
  flattens : Flattens o.2.env o'.2

variable {s t : Session} {m m' : Scope Value}

theorem sameEnd_of_execute (h : Flattens s.env m) (n : Nat) (p : Program) :
    Option.Rel SameEnd (s.execute n p) (execute n p m) := by
  have hstmts : Tracks (Monkey.Eval.stmts n .null p) { s with env := s.env.enter }
      (Eval.stmts n .null p) (.start m) Represents Mirrors :=
    (tracksAt n).stmts p (.data _) h.enter
  have hshown {v : Monkey.Value} {w : Value} (hvw : Represents v w) :
      Session.shown (.ok v) = shown (.ok w) := by
    simp only [Session.shown, shown, Except.map, hvw.alike.1, hvw.render_eq]
  rw [Session.execute_eq_map]
  refine rel_map hstmts fun o o' _ hm => ?_
  cases hm with
  | ok hvw hmirrors => exact ⟨hshown hvw, hmirrors.flattens.commit⟩
  | returned hvw hmirrors => exact ⟨hshown hvw, hmirrors.flattens.commit⟩
  | fault e => exact ⟨rfl, h⟩

theorem exists_answers_of_session {q : Request} {a : Answer} (h : Flattens s.env m)
    (hs : s.Answers q a t) : ∃ m', Answers m q a m' ∧ Flattens t.env m' := by
  cases q with
  | execute p =>
    obtain ⟨n, r, hr, rfl⟩ := hs
    have hend := sameEnd_of_execute h n p
    rw [hr] at hend
    generalize ho : execute n p m = o at hend
    cases hend with
    | some hend => exact ⟨_, ⟨n, _, ho, congrArg some hend.shown⟩, hend.flattens⟩
  | reset =>
    obtain ⟨rfl, rfl⟩ := hs
    exact ⟨[], ⟨rfl, rfl⟩, .empty⟩

theorem exists_answers_of_map {q : Request} {a : Answer} (h : Flattens s.env m)
    (hm : Answers m q a m') : ∃ t, s.Answers q a t ∧ Flattens t.env m' := by
  cases q with
  | execute p =>
    obtain ⟨n, r, hr, rfl⟩ := hm
    have hend := sameEnd_of_execute h n p
    rw [hr] at hend
    generalize ho : s.execute n p = o at hend
    cases hend with
    | some hend => exact ⟨_, ⟨n, _, ho, congrArg some hend.shown.symm⟩, hend.flattens⟩
  | reset =>
    obtain ⟨rfl, rfl⟩ := hm
    exact ⟨s.reset, ⟨rfl, rfl⟩, .empty⟩

end Lexical

namespace Session

/--
The requests to a fresh session all end just if they do under plain lexical scoping, and then every
program shows the same fault there, or a value of the same kind with the same text.
-/
theorem transcript_lexical (firstId : Nat) (qs : List Request) :
    (∀ as, Transcript Answers (fresh firstId) qs as ↔ Transcript Lexical.Answers [] qs as) ∧
      ∀ as as', Transcript Answers (fresh firstId) qs as → Transcript Lexical.Answers [] qs as' →
        as = as' := by
  have hstart : Lexical.Flattens (fresh firstId).env [] := .empty
  have hforth {as : List Answer} (h : Transcript Answers (fresh firstId) qs as) :
      Transcript Lexical.Answers [] qs as :=
    h.of_simulation (R := fun s m => Lexical.Flattens s.env m) hstart
      fun _ _ _ _ _ hR hs => Lexical.exists_answers_of_session hR hs
  have hback {as : List Answer} (h : Transcript Lexical.Answers [] qs as) :
      Transcript Answers (fresh firstId) qs as :=
    h.of_simulation (R := fun m s => Lexical.Flattens s.env m) hstart
      fun _ _ _ _ _ hR hm => Lexical.exists_answers_of_map hR hm
  refine ⟨fun as => ⟨hforth, hback⟩, fun as as' h h' => ?_⟩
  exact h.unique (hback h') fun _ _ _ _ _ _ ha ha' => Answers.unique ha ha'

/-- A captured name is bound again, a failed program is taken back, and a program returns early. -/
theorem transcript_lexical_rebound :
    let qs : List Request := [
      .execute [.bind "x" (.int 1), .bind "f" (.fn [] [.expr (.ident "x")])],
      .execute [.bind "x" (.int 5), .bind "x" (.int 6)],
      .execute [.bind "x" (.int 5), .bind "g" (.fn ["x"] [
          .bind "x" (.binary .add (.ident "x") (.int 1)),
          .expr (.binary .add (.call (.ident "f") []) (.ident "x"))]),
        .ret (.call (.ident "g") [.ident "x"]), .bind "x" (.int 9)],
      .execute [.expr (.ident "x")],
      .reset,
      .execute [.expr (.call (.ident "f") [])]]
    let as : List Answer := [some (.ok (.function, "fn() { x }")), some (.error (.duplicate "x")),
      some (.ok (.integer, "7")), some (.ok (.integer, "5")), none, some (.error (.undefined "f"))]
    Transcript Lexical.Answers [] qs as ∧ Transcript Answers (fresh 0) qs as := by
  intro qs as
  have h : Transcript Lexical.Answers [] qs as :=
    .cons ⟨20, _, rfl, rfl⟩ <| .cons ⟨20, _, rfl, rfl⟩ <| .cons ⟨20, _, rfl, rfl⟩ <|
      .cons ⟨20, _, rfl, rfl⟩ <| .cons ⟨rfl, rfl⟩ <| .cons ⟨20, _, rfl, rfl⟩ <| .nil _
  exact ⟨h, ((transcript_lexical 0 qs).1 as).2 h⟩

end Session

end Monkey

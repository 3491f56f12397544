import Mathlib.Data.List.DropRight
import Monkey.Proofs.Evaluation.Frame

/-! # The depth of a session

A program that fails where nothing protects the session from it leaves its scope
open. This is the one way to deepen a session, and a reset is the one way to make it
shallower: every other step keeps the scopes that it finds.
-/

namespace Monkey

namespace Environment

variable {α : Type} {e e' e'' : Environment α} {m n : Nat}

/--
Whether `n` scopes were opened in an environment and none was closed: the enclosing scopes are as
they were, and the innermost one still binds what it bound.
-/
def Opens (n : Nat) (e e' : Environment α) : Prop :=
  ∃ opened kept, e'.scopes = opened ++ kept :: e.outer ∧ opened.length = n ∧
    ∀ x, Scope.binds e.current x = true → Scope.binds kept x = true

namespace Opens

theorem of_outer_eq (houter : e'.outer = e.outer)
    (hbinds : ∀ x, Scope.binds e.current x = true → Scope.binds e'.current x = true) :
    Opens 0 e e' :=
  ⟨[], e'.current, by rw [scopes, houter, List.nil_append], rfl, hbinds⟩

theorem refl (e : Environment α) : Opens 0 e e :=
  of_outer_eq rfl fun _ hx => hx

theorem of_outer_eq_scopes (houter : e'.outer = e.scopes) : Opens 1 e e' :=
  ⟨[e'.current], e.current, by rw [scopes, houter]; rfl, rfl, fun _ hx => hx⟩

theorem define {name : String} {v : α} (h : e.define name v = .ok e') : Opens 0 e e' := by
  obtain ⟨-, rfl⟩ := define_eq_ok_iff.1 h
  refine of_outer_eq rfl fun x hx => ?_
  rw [Scope.binds, Scope.get?_cons]
  split
  · rfl
  · exact hx

/-- The bindings of a scope that is committed join those that were there. -/
theorem commit (houter : e'.outer = e.scopes) : Opens 0 e e'.commit := by
  have hcommit : e'.commit = ⟨Scope.override e'.current e.current, e.outer⟩ := by
    rw [Environment.commit, houter]
    rfl
  rw [hcommit]
  refine of_outer_eq rfl fun x hx => ?_
  rw [Scope.binds, Scope.get?_override]
  rw [Scope.binds] at hx
  cases hnew : Scope.get? e'.current x with
  | none => exact hx
  | some v => rfl

theorem trans (h : Opens m e e') (h' : Opens n e' e'') : Opens (m + n) e e'' := by
  obtain ⟨opened, kept, hscopes, rfl, hbinds⟩ := h
  obtain ⟨opened', kept', hscopes', rfl, hbinds'⟩ := h'
  cases opened with
  | nil =>
    obtain ⟨hcurrent, houter⟩ := List.cons.inj hscopes
    rw [houter] at hscopes'
    refine ⟨opened', kept', hscopes', by simp, fun x hx => hbinds' x ?_⟩
    rw [hcurrent]
    exact hbinds x hx
  | cons s ss =>
    -- The scope that was innermost in between is one of those that were opened.
    obtain ⟨-, houter⟩ := List.cons.inj hscopes
    refine ⟨opened' ++ kept' :: ss, kept, ?_, ?_, hbinds⟩
    · rw [hscopes', houter, List.append_assoc]
      rfl
    · rw [List.length_append, List.length_cons, List.length_cons, Nat.add_comm]

theorem depth_eq (h : Opens n e e') : e'.depth = e.depth + n := by
  obtain ⟨opened, kept, hscopes, rfl, -⟩ := h
  rw [depth, hscopes, List.length_append, List.length_cons, Nat.add_comm]
  rfl

end Opens

end Environment

namespace Session

open Environment (Opens)

/-- An action together with its outcome. -/
abbrev Step := Action × Option Outcome

/-- Whether a step is a reset. -/
def Step.resets : Step → Bool
  | (.reset, _) => true
  | _ => false

/-- Whether a step evaluated a program without protection, and the program failed. -/
def Step.leavesOpen : Step → Bool
  | (.program _, some (.error (.fault _))) => true
  | _ => false

/-- The steps that lead from `s` to another session. The depth may differ from step to step. -/
inductive Trace (s : Session) : List Step → Session → Prop
  | start : Trace s [] s
  | step {steps : List Step} {t u : Session} {a : Action} {depth : Nat} {o : Option Outcome} :
      Trace s steps t → t.perform depth a = some (o, u) → Trace s (steps ++ [(a, o)]) u

/-- The steps after the last reset. -/
def sinceReset (steps : List Step) : List Step :=
  steps.rtakeWhile fun step => !step.resets

variable {s t : Session} {n : Nat}

/-! ## One step -/

theorem outer_of_stmts {v : Value} {p : Program} {r : Outcome}
    (h : (Eval.stmts n v p).runIn { s with env := s.env.enter } = some (r, t)) :
    t.env.outer = s.env.scopes :=
  (Eval.framesAt n).stmts v p _ r t h

theorem opens_of_program {p : Program} {r : Outcome}
    (h : (Eval.program n p).runIn s = some (r, t)) :
    Opens ([((.program p, some r) : Step)].countP Step.leavesOpen) s.env t.env := by
  rw [Eval.program, Eval.runIn_committing] at h
  obtain ⟨⟨r', u⟩, hrun, hend⟩ := Option.map_eq_some_iff.1 h
  have houter := outer_of_stmts hrun
  rcases r' with (v | e) | v <;> cases hend
  · exact .commit houter
  · exact .of_outer_eq_scopes houter
  · exact .commit houter

theorem opens_of_execute {p : Program} {r : Except Fault Value}
    (h : s.execute n p = some (r, t)) : Opens 0 s.env t.env := by
  obtain ⟨⟨r', u⟩, hrun, hend⟩ := Option.map_eq_some_iff.1 h
  have hopens := opens_of_program hrun
  rcases r' with (v | e) | v <;> cases hend
  · exact hopens
  · exact .refl s.env
  · exact hopens

theorem opens_of_stmt {st : Stmt} {r : Outcome} (h : (Eval.stmt n st).runIn s = some (r, t)) :
    Opens 0 s.env t.env := by
  rcases (Eval.framesAt n).stmt st s r t h with ⟨henv, -⟩ | ⟨name, v, -, -, hdefine⟩
  · rw [henv]
    exact .refl s.env
  · exact .define hdefine

/-- Every action but a reset opens one scope or none, and closes none. -/
theorem opens_of_perform {a : Action} {o : Option Outcome} (h : s.perform n a = some (o, t))
    (ha : a ≠ .reset) : Opens ([(a, o)].countP Step.leavesOpen) s.env t.env := by
  cases a with
  | execute p =>
    obtain ⟨⟨r, u⟩, hrun, hend⟩ := Option.map_eq_some_iff.1 h
    cases hend
    exact opens_of_execute hrun
  | program p =>
    obtain ⟨⟨r, u⟩, hrun, hend⟩ := Option.map_eq_some_iff.1 h
    cases hend
    exact opens_of_program hrun
  | block b =>
    obtain ⟨⟨r, u⟩, hrun, hend⟩ := Option.map_eq_some_iff.1 h
    cases hend
    have henv : t.env = s.env := (Eval.framesAt n).block b s r t hrun
    rw [henv]
    exact .refl s.env
  | statement st =>
    obtain ⟨⟨r, u⟩, hrun, hend⟩ := Option.map_eq_some_iff.1 h
    cases hend
    exact opens_of_stmt hrun
  | lookup name =>
    cases h
    exact .refl s.env
  | reset => exact absurd rfl ha

/-! ## Many steps -/

theorem Trace.append {first later : List Step} {u : Session} (h : Trace s first t)
    (h' : Trace t later u) : Trace s (first ++ later) u := by
  induction h' with
  | start => rwa [List.append_nil]
  | step _ hperform ih =>
    rw [← List.append_assoc]
    exact ih.step hperform

theorem Trace.opens {steps : List Step} (h : Trace s steps t)
    (hsteps : ∀ step ∈ steps, step.1 ≠ .reset) :
    Opens (steps.countP Step.leavesOpen) s.env t.env := by
  induction h with
  | start => exact .refl s.env
  | step _ hperform ih =>
    rw [List.countP_append]
    refine (ih fun step hstep => hsteps step ?_).trans (opens_of_perform hperform ?_)
    · exact List.mem_append_left _ hstep
    · exact hsteps _ (List.mem_append_right _ List.mem_cons_self)

theorem sinceReset_concat (steps : List Step) (step : Step) :
    sinceReset (steps ++ [step]) = if step.resets then [] else sinceReset steps ++ [step] := by
  rw [sinceReset, List.rtakeWhile_concat]
  cases step.resets <;> rfl

theorem Trace.depth_eq {id : Nat} {steps : List Step} (h : Trace (fresh id) steps s) :
    s.env.depth = 1 + (sinceReset steps).countP Step.leavesOpen := by
  induction h with
  | start => rfl
  | @step steps t u a depth o _ hperform ih =>
    rw [sinceReset_concat]
    by_cases ha : a = .reset
    · subst ha
      cases hperform
      rfl
    · have hresets : Step.resets (a, o) = false := by
        cases a <;> first | rfl | exact absurd rfl ha
      rw [hresets, (opens_of_perform hperform ha).depth_eq, ih, Nat.add_assoc,
        ← List.countP_append]
      rfl

/--
A session is as deep as programs were left open since the last reset, and one scope more. Until the
next reset no scope is closed: each keeps its place, and no name that the innermost one binds is
lost from it.
-/
theorem depth_of_trace {id : Nat} {steps : List Step} (h : Trace (fresh id) steps s) :
    s.env.depth = 1 + (sinceReset steps).countP Step.leavesOpen ∧
      ∀ later t, Trace s later t → (∀ step ∈ later, step.1 ≠ .reset) →
        ∃ opened kept, t.env.scopes = opened ++ kept :: s.env.outer ∧
          opened.length = later.countP Step.leavesOpen ∧
          ∀ x, Scope.binds s.env.current x = true → Scope.binds kept x = true :=
  ⟨h.depth_eq, fun _ _ hlater hsteps => hlater.opens hsteps⟩

/-- Two programs that fail, the second in a function that the first one made, and then a reset. -/
theorem depth_of_trace_left_open :
    let body : Block := [.expr (.cond (.bool true)
      [.bind "x" (.int 2), .ret (.binary .add (.ident "x") (.bool true))] none)]
    let g : Value := .function 0 [] body ⟨[("x", .int 1)], [[]]⟩
    let s : Session := ⟨⟨[("g", g), ("x", .int 1)], [[]]⟩, 1⟩
    let t : Session := ⟨⟨[("x", .int 5)], [[("z", .int 1), ("g", g), ("x", .int 1)], []]⟩, 1⟩
    let u : Session := ⟨⟨[], [[]]⟩, 1⟩
    let failed : Option Outcome := some (.error (.fault (.unsupported "+" [.integer, .boolean])))
    let first : List Step := [(.program [.bind "x" (.int 1), .bind "g" (.fn [] body),
      .expr (.ident "y")], some (.error (.fault (.undefined "y"))))]
    let later : List Step := [
      (.execute [.bind "x" (.int 3), .expr (.call (.ident "g") [])], failed),
      (.statement (.bind "z" (.ident "x")), some (.ok (.int 1))),
      (.block [.bind "z" (.int 4), .ret (.ident "z")], some (.error (.returned (.int 4)))),
      (.program [.expr (.call (.ident "g") [])], failed),
      (.execute [.bind "x" (.int 5)], some (.ok (.int 5)))]
    let last : List Step := [(.reset, none),
      (.program [.expr (.ident "x")], some (.error (.fault (.undefined "x"))))]
    (Trace (fresh 0) first s ∧ s.env.depth = 2) ∧
      (Trace s later t ∧ ∃ opened kept, t.env.scopes = opened ++ kept :: s.env.outer ∧
        opened.length = 1 ∧ ∀ x, Scope.binds s.env.current x = true → Scope.binds kept x = true) ∧
      (Trace (fresh 0) (first ++ later ++ last) u ∧ u.env.depth = 2) := by
  intro body g s t u failed first later last
  have hfirst : Trace (fresh 0) first s := @Trace.step _ [] _ _ _ 20 _ .start rfl
  have hlater : Trace s later t := by
    have h₁ : Trace s (later.take 1) s := @Trace.step _ [] _ _ _ 20 _ .start rfl
    have h₂ := @Trace.step _ _ _ _ (.statement (.bind "z" (.ident "x"))) 20 _ h₁ rfl
    have h₃ := @Trace.step _ _ _ _ (.block [.bind "z" (.int 4), .ret (.ident "z")]) 20 _ h₂ rfl
    have h₄ := @Trace.step _ _ _ _ (.program [.expr (.call (.ident "g") [])]) 20 _ h₃ rfl
    exact @Trace.step _ _ _ _ _ 20 _ h₄ rfl
  have hlast : Trace (fresh 0) (first ++ later ++ last) u := by
    have h₁ : Trace t (last.take 1) ⟨.empty, 1⟩ := @Trace.step _ [] _ _ _ 20 _ .start rfl
    exact (hfirst.append hlater).append (@Trace.step _ _ _ _ _ 20 _ h₁ rfl)
  refine ⟨⟨hfirst, (depth_of_trace hfirst).1⟩, ⟨hlater, ?_⟩, hlast, (depth_of_trace hlast).1⟩
  refine (depth_of_trace hfirst).2 later t hlater ?_
  simp [later]

end Session

end Monkey

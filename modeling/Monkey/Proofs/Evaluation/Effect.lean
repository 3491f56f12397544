import Monkey.Proofs.Evaluation.Depth
import Monkey.Proofs.Evaluation.Frame

/-! # What a statement does to the environment

A statement evaluates its expression and then does at most one thing more: it
binds a name, or it returns. Binding a name that is new in the innermost scope
is the only change to the environment that any part of a program makes.
-/

namespace Monkey

/-- The expression of a statement. -/
def Stmt.value : Stmt → Expr
  | .bind _ value | .ret value | .expr value => value

namespace Eval

/-- How a statement visited in `s` ends, when `n` nested rules may start for its expression. -/
inductive Visits (n : Nat) (s : Session) : Stmt → Outcome → Session → Prop
  | bound {name : String} {value : Expr} {v : Value} {t : Session} :
      (expr n value).runIn s = some (.ok v, t) → Scope.binds s.env.current name = false →
      Visits n s (.bind name value) (.ok v)
        { t with env := ⟨(name, v) :: s.env.current, s.env.outer⟩ }
  | duplicate {name : String} {value : Expr} {v : Value} {t : Session} :
      (expr n value).runIn s = some (.ok v, t) → Scope.binds s.env.current name = true →
      Visits n s (.bind name value) (.error (.fault (.duplicate name))) t
  | returned {value : Expr} {v : Value} {t : Session} :
      (expr n value).runIn s = some (.ok v, t) →
      Visits n s (.ret value) (.error (.returned v)) t
  | plain {value : Expr} {v : Value} {t : Session} :
      (expr n value).runIn s = some (.ok v, t) → Visits n s (.expr value) (.ok v) t
  | abrupt {st : Stmt} {a : Abrupt} {t : Session} :
      (expr n st.value).runIn s = some (.error a, t) → Visits n s st (.error a) t

theorem env_of_expr {n : Nat} {e : Expr} {s t : Session} {r : Outcome}
    (h : (expr n e).runIn s = some (r, t)) : t.env = s.env :=
  (framesAt n).expr e s r t h

theorem visits_of_runIn {n : Nat} {st : Stmt} {s t : Session} {r : Outcome}
    (h : (stmt (n + 1) st).runIn s = some (r, t)) : Visits n s st r t := by
  cases st with
  | bind name value =>
    change (expr n value >>= fun v => define name v >>= fun _ => pure v).runIn s = _ at h
    rw [runIn_bind] at h
    obtain ⟨⟨_ | v, u⟩, hv, h⟩ := Option.bind_eq_some_iff.1 h
    · cases h
      exact .abrupt hv
    · have henv : u.env = s.env := env_of_expr hv
      simp only [runIn_bind, runIn_define, henv, Environment.define] at h
      by_cases hnew : Scope.binds s.env.current name = true
      · rw [if_pos hnew] at h
        cases h
        exact .duplicate hv hnew
      · rw [if_neg hnew] at h
        cases h
        exact .bound hv (by simpa using hnew)
  | ret value =>
    change (expr n value >>= fun v => returning v).runIn s = _ at h
    rw [runIn_bind] at h
    obtain ⟨⟨_ | v, u⟩, hv, h⟩ := Option.bind_eq_some_iff.1 h
    · cases h
      exact .abrupt hv
    · cases h
      exact .returned hv
  | expr value =>
    change (expr n value).runIn s = _ at h
    cases r with
    | error a => exact .abrupt h
    | ok v => exact .plain h

theorem exists_visits {n : Nat} {st : Stmt} {s t : Session} {r : Outcome}
    (h : (stmt n st).runIn s = some (r, t)) : ∃ k, Visits k s st r t := by
  cases n with
  | zero => simp [stmt] at h
  | succ k => exact ⟨k, visits_of_runIn h⟩

/--
Whether a statement visited in `s` has a value to bind to a name that is new in the innermost
scope.
-/
def Binds (s : Session) (st : Stmt) (name : String) (v : Value) : Prop :=
  ∃ value n t, st = .bind name value ∧ (expr n value).runIn s = some (.ok v, t) ∧
    Scope.binds s.env.current name = false

theorem env_of_visits {n : Nat} {st : Stmt} {s t : Session} {r : Outcome}
    (h : Visits n s st r t) : (t.env = s.env ∧ ∀ name v, ¬ Binds s st name v) ∨
      ∃ name v, Binds s st name v ∧ r = .ok v ∧
        t.env = { s.env with current := (name, v) :: s.env.current } := by
  cases h with
  | bound hv hnew => exact .inr ⟨_, _, ⟨_, _, _, rfl, hv, hnew⟩, rfl, rfl⟩
  | duplicate hv hold =>
    refine .inl ⟨env_of_expr hv, ?_⟩
    rintro name v ⟨value, k, u, hst, -, hnew⟩
    cases hst
    simp [hnew] at hold
  | returned hv => exact .inl ⟨env_of_expr hv, by rintro _ _ ⟨_, _, _, hst, -⟩; cases hst⟩
  | plain hv => exact .inl ⟨env_of_expr hv, by rintro _ _ ⟨_, _, _, hst, -⟩; cases hst⟩
  | abrupt ha =>
    refine .inl ⟨env_of_expr ha, ?_⟩
    rintro name v ⟨value, k, u, rfl, hv, -⟩
    cases expr_unique ha hv

theorem Binds.unique {s : Session} {st : Stmt} {x y : String} {v w : Value}
    (h : Binds s st x v) (h' : Binds s st y w) : x = y ∧ v = w := by
  obtain ⟨value, m, t, rfl, hv, -⟩ := h
  obtain ⟨value', n, t', hst, hw, -⟩ := h'
  cases hst
  cases expr_unique hv hw
  exact ⟨rfl, rfl⟩

/--
Expressions and blocks leave the environment as it was, however they end. A statement that has a
value for a new name adds this one binding to the innermost scope, and every other statement leaves
the environment as it was too.
-/
theorem env_after_visit :
    (∀ n e s r t, (expr n e).runIn s = some (r, t) → t.env = s.env) ∧
      (∀ n b s r t, (block n b).runIn s = some (r, t) → t.env = s.env) ∧
      ∀ n st s r t, (stmt n st).runIn s = some (r, t) →
        (∀ name v, Binds s st name v →
          r = .ok v ∧ t.env = { s.env with current := (name, v) :: s.env.current }) ∧
        ((∀ name v, ¬ Binds s st name v) → t.env = s.env) := by
  refine ⟨fun n e s r t h => env_of_expr h, fun n b => (framesAt n).block b, ?_⟩
  intro n st s r t h
  obtain ⟨k, hvisit⟩ := exists_visits h
  rcases env_of_visits hvisit with ⟨ht, hnone⟩ | ⟨name, v, hbinds, hr, ht⟩
  · exact ⟨fun name v hb => absurd hb (hnone name v), fun _ => ht⟩
  · refine ⟨fun name' v' hb => ?_, fun hnone => absurd hbinds (hnone name v)⟩
    obtain ⟨rfl, rfl⟩ := hb.unique hbinds
    exact ⟨hr, ht⟩

/-- A fault two scopes deep in a called function, a return out of a block, and two lets. -/
theorem env_after_visit_shadowing :
    let s : Session := ⟨⟨[("x", .int 1)], [[("y", .int 2)]]⟩, 0⟩
    let failing : Expr := .call (.fn ["x"] [.bind "y" (.ident "x"), .expr (.cond (.bool true)
      [.bind "z" (.ident "y"), .expr (.binary .add (.ident "z") (.bool true))] none)]) [.int 3]
    let leaving : Block := [.bind "x" (.int 4), .expr (.cond (.bool true) [.ret (.ident "x")] none)]
    (∃ t, (expr 20 failing).runIn s =
        some (.error (.fault (.unsupported "+" [.integer, .boolean])), t) ∧ t.env = s.env) ∧
      (∃ t, (block 20 leaving).runIn s = some (.error (.returned (.int 4)), t) ∧ t.env = s.env) ∧
      (∃ t, (stmt 20 (.bind "y" (.int 5))).runIn s = some (.ok (.int 5), t) ∧
        t.env = ⟨[("y", .int 5), ("x", .int 1)], [[("y", .int 2)]]⟩) ∧
      ∃ t, (stmt 20 (.bind "x" failing)).runIn s =
        some (.error (.fault (.unsupported "+" [.integer, .boolean])), t) ∧ t.env = s.env := by
  intro s failing leaving
  refine ⟨⟨_, rfl, env_after_visit.1 20 failing s _ _ rfl⟩,
    ⟨_, rfl, env_after_visit.2.1 20 leaving s _ _ rfl⟩, ⟨_, rfl, ?_⟩, ⟨_, rfl, ?_⟩⟩
  · have hy : Binds s (.bind "y" (.int 5)) "y" (.int 5) := ⟨.int 5, 1, s, rfl, rfl, by decide⟩
    exact ((env_after_visit.2.2 20 (.bind "y" (.int 5)) s _ _ rfl).1 "y" (.int 5) hy).2
  · refine (env_after_visit.2.2 20 (.bind "x" failing) s _ _ rfl).2 ?_
    rintro name v ⟨value, n, t, hst, hv, hnew⟩
    cases hst
    exact absurd hnew (by decide)

end Eval

end Monkey

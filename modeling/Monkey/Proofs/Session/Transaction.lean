import Monkey.Proofs.Evaluation.Effect
import Monkey.Proofs.Session.Batch

/-! # Executing a program is a transaction

A fault takes every change back. Otherwise the innermost scope receives the
bindings of the statements of the program itself, as far as they were executed,
and no other scope is touched.
-/

namespace Monkey.Eval

/--
Statements that all end normally when visited from `s` on, with the bindings they make in the
innermost scope, the latest first, and the session they lead to.
-/
inductive Executes : Session → List Stmt → Scope Value → Session → Prop
  | nil (s : Session) : Executes s [] [] s
  | bind {n : Nat} {s t u : Session} {name : String} {value : Expr} {v : Value}
      {env : Environment Value} {ss : List Stmt} {new : Scope Value} :
      (expr n value).runIn s = some (.ok v, t) → t.env.define name v = .ok env →
      Executes { t with env } ss new u →
      Executes s (.bind name value :: ss) (new ++ [(name, v)]) u
  | expr {n : Nat} {s t u : Session} {value : Expr} {v : Value} {ss : List Stmt}
      {new : Scope Value} :
      (expr n value).runIn s = some (.ok v, t) → Executes t ss new u →
      Executes s (.expr value :: ss) new u

namespace Executes

variable {s u : Session} {ss : List Stmt} {new : Scope Value}

theorem env_eq (h : Executes s ss new u) :
    u.env = ⟨new ++ s.env.current, s.env.outer⟩ := by
  induction h with
  | nil s => rfl
  | bind hv hd _ ih =>
    obtain ⟨-, rfl⟩ := Environment.define_eq_ok_iff.1 hd
    rw [ih, List.append_assoc, env_of_expr hv]
    rfl
  | expr hv _ ih => rw [ih, env_of_expr hv]

theorem map_fst_eq (h : Executes s ss new u) :
    new.map Prod.fst = (Block.names ss).reverse := by
  induction h with
  | nil s => rfl
  | bind _ _ _ ih => simp [ih, Block.names, Stmt.name?]
  | expr _ _ ih => exact ih

/-- A statement that ends normally is executed before those that follow it. -/
theorem cons {n : Nat} {st : Stmt} {v : Value} {t : Session} (hst : Visits n s st (.ok v) t)
    (h : Executes t ss new u) : ∃ new', Executes s (st :: ss) new' u := by
  cases hst with
  | bound hv hnew =>
    refine ⟨_, .bind hv (Environment.define_eq_ok_iff.2 ?_) h⟩
    rw [env_of_expr hv]
    exact ⟨hnew, rfl⟩
  | plain hv => exact ⟨_, .expr hv h⟩

end Executes

/--
The statements of a sequence are executed up to its end, or up to one that ends abruptly, and the
environment is the one that the executed statements lead to.
-/
theorem executes_of_stmts {n : Nat} {v : Value} {p : List Stmt} {s t : Session} {r : Outcome}
    (h : (stmts n v p).runIn s = some (r, t)) :
    ∃ done rest new u, p = done ++ rest ∧ Executes s done new u ∧ t.env = u.env ∧
      ((rest = [] ∧ ∃ w, r = .ok w) ∨ ∃ st rest' k a, rest = st :: rest' ∧ r = .error a ∧
        (stmt k st).runIn u = some (.error a, t)) := by
  induction p generalizing n v s with
  | nil =>
    cases n with
    | zero => simp [stmts] at h
    | succ n =>
      cases h
      exact ⟨[], [], [], t, rfl, .nil t, rfl, .inl ⟨rfl, v, rfl⟩⟩
  | cons st ss ih =>
    cases n with
    | zero => simp [stmts] at h
    | succ n =>
      change (stmt n st >>= fun w => stmts n w ss).runIn s = _ at h
      rw [runIn_bind] at h
      obtain ⟨⟨a | w, u⟩, hst, h⟩ := Option.bind_eq_some_iff.1 h
      · cases h
        have henv : t.env = s.env := by
          rcases (framesAt n).stmt st s _ _ hst with ⟨ht, -⟩ | ⟨_, _, -, hr, -⟩
          · exact ht
          · cases hr
        exact ⟨[], st :: ss, [], s, rfl, .nil s, henv, .inr ⟨st, ss, n, a, rfl, rfl, hst⟩⟩
      · obtain ⟨k, hvisit⟩ := exists_visits hst
        obtain ⟨done, rest, new, u', rfl, hdone, ht, hend⟩ := ih h
        obtain ⟨new', hcons⟩ := hdone.cons hvisit
        exact ⟨st :: done, rest, new', u', rfl, hcons, ht, hend⟩

end Monkey.Eval

namespace Monkey.Session

/--
An execution that ends with a fault leaves the environment as it was. One that ends with a value
keeps the enclosing scopes, and its own bindings override the innermost one: those of all statements
of the program, or of the statements before the one that returned.
-/
theorem execute_transaction {n : Nat} {p : Program} {s t : Session} {r : Except Fault Value}
    (h : s.execute n p = some (r, t)) :
    (∀ e, r = .error e → t.env = s.env) ∧
      ∀ v, r = .ok v → ∃ done rest new u, p = done ++ rest ∧
        Eval.Executes { s with env := s.env.enter } done new u ∧
        (rest = [] ∨ ∃ st rest' k u', rest = st :: rest' ∧
          (Eval.stmt k st).runIn u = some (.error (.returned v), u')) ∧
        new.map Prod.fst = (Block.names done).reverse ∧
        t.env.depth = s.env.depth ∧ t.env.outer = s.env.outer ∧
        t.env.current = Scope.override new s.env.current ∧
        ∀ x, t.env.get? x = (new.get? x).or (s.env.get? x) := by
  rw [execute_eq_map] at h
  obtain ⟨⟨o, u⟩, hrun, he⟩ := Option.map_eq_some_iff.1 h
  obtain ⟨done, rest, new, u', hp, hdone, hu, hend⟩ := Eval.executes_of_stmts hrun
  have henv : u.env = ⟨new, s.env.scopes⟩ := by
    rw [hu, hdone.env_eq, Environment.enter, List.append_nil]
  have hkept : u.env.commit.depth = s.env.depth ∧ u.env.commit.outer = s.env.outer ∧
      u.env.commit.current = Scope.override new s.env.current ∧
      ∀ x, u.env.commit.get? x = (new.get? x).or (s.env.get? x) := by
    rw [henv]
    refine ⟨rfl, rfl, rfl, fun x => ?_⟩
    rw [Environment.get?_commit, Environment.get?_mk]
    rfl
  rcases o with (w | e) | w <;> cases he
  · refine ⟨nofun, fun v hv => ?_⟩
    cases hv
    rcases hend with ⟨-, _, hr⟩ | ⟨st, rest', k, a, hrest, hr, hst⟩ <;> cases hr
    exact ⟨done, rest, new, u', hp, hdone, .inr ⟨st, rest', k, u, hrest, hst⟩,
      hdone.map_fst_eq, hkept⟩
  · exact ⟨fun _ _ => rfl, nofun⟩
  · refine ⟨nofun, fun v _ => ?_⟩
    rcases hend with ⟨hrest, -⟩ | ⟨_, _, _, _, -, hr, -⟩
    · exact ⟨done, rest, new, u', hp, hdone, .inl hrest, hdone.map_fst_eq, hkept⟩
    · cases hr

/-- In the scope that a failed program left: a program that fails, and one that returns early. -/
theorem execute_transaction_left_open : ∃ s t t' : Session,
    perform 20 initial (.program [.bind "x" (.int 1), .expr (.ident "y")]) =
        some (some (.error (.fault (.undefined "y"))), s) ∧ s.env.depth = 2 ∧
      s.execute 20 [.bind "y" (.ident "x"), .expr (.call (.ident "y") [])] =
        some (.error (.notCallable .integer), t) ∧ t.env = s.env ∧
      s.execute 20 [.bind "y" (.ident "x"), .bind "x" (.int 2), .ret (.ident "y"),
        .bind "z" (.int 3)] = some (.ok (.int 1), t') ∧
      t'.env.depth = 2 ∧ t'.env.outer = s.env.outer ∧
      t'.env.current = [("x", .int 2), ("y", .int 1)] := by
  let s : Session := ⟨⟨[("x", .int 1)], [[]]⟩, 0⟩
  obtain ⟨t, ht⟩ : ∃ t, s.execute 20 [.bind "y" (.ident "x"), .expr (.call (.ident "y") [])] =
    some (.error (.notCallable .integer), t) := ⟨_, rfl⟩
  obtain ⟨t', ht', hcurrent⟩ : ∃ t', s.execute 20 [.bind "y" (.ident "x"), .bind "x" (.int 2),
      .ret (.ident "y"), .bind "z" (.int 3)] = some (.ok (.int 1), t') ∧
    t'.env.current = [("x", .int 2), ("y", .int 1)] := ⟨_, rfl, rfl⟩
  obtain ⟨_, _, _, _, -, -, -, -, hdepth, houter, -⟩ := (execute_transaction ht').2 _ rfl
  exact ⟨s, t, t', rfl, rfl, ht, (execute_transaction ht).1 _ rfl, ht', hdepth, houter, hcurrent⟩

end Monkey.Session

import Monkey.Proofs.Evaluation.Coincidence
import Monkey.Proofs.Evaluation.Depth

/-! # One program or two

Executing one program after another shows what executing both as one program
shows, if the second binds no name again that the first binds. The scopes differ
in the two cases, and so do the environments that functions capture, but they
agree on every name.
-/

namespace Monkey

namespace Eval

variable {n m : Nat} {s t : Session} {p q : List Stmt} {v w : Value}

/-- Statements that end normally are followed by the rest of the sequence they begin. -/
theorem runIn_stmts_append (h : (stmts n v p).runIn s = some (.ok w, t)) (hm : n ≤ m) :
    (stmts (m + p.length) v (p ++ q)).runIn s = (stmts m w q).runIn t := by
  induction p generalizing n v s with
  | nil =>
    cases n with
    | zero => simp [stmts] at h
    | succ n =>
      cases h
      rfl
  | cons st p ih =>
    cases n with
    | zero => simp [stmts] at h
    | succ n =>
      change ((stmt n st >>= fun u => stmts n u p).runIn s) = _ at h
      rw [runIn_bind] at h
      obtain ⟨⟨r, t'⟩, hst, hrest⟩ := Option.bind_eq_some_iff.1 h
      cases r with
      | error e => cases hrest
      | ok u =>
        have hle : n ≤ m + p.length := by omega
        have hst' := Refines.of_le (fun k => (deeperAt k).stmt st) hle s _ hst
        change ((stmt (m + p.length) st >>= fun u => stmts (m + p.length) u (p ++ q)).runIn s) = _
        rw [runIn_bind, hst']
        exact ih hrest (by omega)

/-- The value before the first statement of a sequence is never seen. -/
theorem stmts_initial (hq : q ≠ []) : stmts n v q = stmts n w q := by
  cases n with
  | zero => rfl
  | succ n =>
    cases q with
    | nil => exact absurd rfl hq
    | cons st q => rfl

end Eval

namespace Session

open Environment (Agree SameScope)

/-- What an execution shows: a fault, or the kind and the text of a value. -/
def shown (r : Except Fault Value) : Except Fault (Value.Kind × String) :=
  r.map fun v => (v.kind, v.render)

/-- The end of an execution begun in `s` whose statements ended so in a scope of their own. -/
def settle (s : Session) : Outcome × Session → Except Fault Value × Session
  | (.ok v, t) => (.ok v, { t with env := t.env.commit })
  | (.error (.returned v), t) => (.ok v, { t with env := t.env.commit })
  | (.error (.fault e), t) => (.error e, { t with env := s.env })

variable {s s' t t' : Session} {p q : Program} {n m : Nat}

theorem execute_eq_map (n : Nat) (p : Program) (s : Session) :
    s.execute n p =
      ((Eval.stmts n .null p).runIn { s with env := s.env.enter }).map s.settle := by
  unfold execute Eval.program
  rw [Eval.runIn_committing, Option.map_map]
  congr 1
  funext ⟨r, t⟩
  rcases r with (_ | _) | _ <;> rfl

/-- Sessions that no sequence of executions can tell apart. -/
def Alike (s s' : Session) : Prop :=
  Agree Set.univ s.env s'.env

/--
Whether the ends of two executions, begun in `s` and in `s'`, show the same and leave sessions
alike, or take every change back.
-/
structure SameEnd (s s' : Session) (o o' : Except Fault Value × Session) : Prop where
  shown : shown o.1 = shown o'.1
  alike : ∀ v, o.1 = .ok v → o.2.Alike o'.2
  restored : ∀ e, o.1 = .error e → o.2.env = s.env ∧ o'.2.env = s'.env

theorem sameEnd_of_matched {o o' : Outcome × Session}
    (h : Eval.Matched (fun v t w t' => v.Similar w ∧ Agree Set.univ t.env t'.env)
      (fun t t' => Agree Set.univ t.env t'.env) o o') :
    SameEnd s s' (s.settle o) (s'.settle o') := by
  have hshown {v w : Value} (hvw : v.Similar w) : shown (.ok v) = shown (.ok w) := by
    simp only [shown, Except.map, hvw.alike.1, hvw.render_eq]
  cases h with
  | ok h => exact ⟨hshown h.1, fun _ _ => h.2.commit, nofun⟩
  | returned hvw h => exact ⟨hshown hvw, fun _ _ => h.commit, nofun⟩
  | fault e _ => exact ⟨rfl, nofun, fun _ _ => ⟨rfl, rfl⟩⟩

/--
Statements run in two scopes entered from environments that agree on all names end alike, if the
innermost scopes bind none of the names that the statements bind.
-/
theorem matched_of_stmts {q : List Stmt} {u : Session} (u' : Session)
    (h : Agree Set.univ u.env u'.env) (hs : SameScope {x | x ∈ Block.names q} u.env u'.env)
    {o : Outcome × Session} (ho : (Eval.stmts n .null q).runIn u = some o) :
    ∃ o', (Eval.stmts n .null q).runIn u' = some o' ∧
      Eval.Matched (fun v t w t' => v.Similar w ∧ Agree Set.univ t.env t'.env)
        (fun t t' => Agree Set.univ t.env t'.env) o o' :=
  (Eval.coincidesAt n).stmts q (.refl _) h hs (fun _ hx => hx) (Stmt.allScoped_univ q) o ho

theorem Alike.execute {o : Except Fault Value × Session} (h : s.Alike s')
    (ho : s.execute n p = some o) :
    ∃ o', s'.execute n p = some o' ∧ shown o.1 = shown o'.1 ∧ o.2.Alike o'.2 := by
  rw [execute_eq_map] at ho
  obtain ⟨u, hu, rfl⟩ := Option.map_eq_some_iff.1 ho
  obtain ⟨u', hu', hm⟩ := matched_of_stmts { s' with env := s'.env.enter } h.enter .enter hu
  have hend : SameEnd s s' (s.settle u) (s'.settle u') := sameEnd_of_matched hm
  refine ⟨s'.settle u', by rw [execute_eq_map, hu']; rfl, hend.shown, ?_⟩
  cases hr : (s.settle u).1 with
  | ok v => exact hend.alike v hr
  | error e =>
    obtain ⟨hs, hs'⟩ := hend.restored e hr
    unfold Alike
    rw [hs, hs']
    exact h

/-- What the executions of several programs, one after the other, show when all of them end. -/
inductive Shows : Session → List Program → List (Except Fault (Value.Kind × String)) → Prop
  | nil (s : Session) : Shows s [] []
  | cons {s t : Session} {p : Program} {n : Nat} {r : Except Fault Value} {ps : List Program}
      {rs : List (Except Fault (Value.Kind × String))} : s.execute n p = some (r, t) →
      Shows t ps rs → Shows s (p :: ps) (shown r :: rs)

theorem Shows.of_alike {ps : List Program} {rs : List (Except Fault (Value.Kind × String))}
    (hs : s.Shows ps rs) (h : s.Alike s') : s'.Shows ps rs := by
  induction hs generalizing s' with
  | nil => exact .nil s'
  | cons hp _ ih =>
    obtain ⟨⟨r', t'⟩, hp', hr, ht⟩ := h.execute hp
    rw [hr]
    exact .cons hp' (ih ht)

theorem shows_iff_of_alike {ps : List Program} {rs : List (Except Fault (Value.Kind × String))}
    (h : s.Alike s') : s.Shows ps rs ↔ s'.Shows ps rs :=
  ⟨fun hs => hs.of_alike h, fun hs => hs.of_alike (Agree.symm h)⟩

section Append

variable {s₁ : Session} {v : Value}

/-- The session between two programs that are executed as one. -/
theorem exists_between (hp : (Eval.program n p).runIn s = some (.ok v, s₁)) :
    ∃ u, (Eval.stmts n .null p).runIn { s with env := s.env.enter } = some (.ok v, u) ∧
      s₁ = { u with env := u.env.commit } := by
  unfold Eval.program at hp
  rw [Eval.runIn_committing] at hp
  obtain ⟨⟨r, u⟩, hu, he⟩ := Option.map_eq_some_iff.1 hp
  rcases r with (_ | _) | w <;> cases he
  exact ⟨u, hu, rfl⟩

theorem execute_append_eq {u : Session} (hq : q ≠ [])
    (hu : (Eval.stmts n .null p).runIn { s with env := s.env.enter } = some (.ok v, u))
    (hm : n ≤ m) :
    s.execute (m + p.length) (p ++ q) = ((Eval.stmts m .null q).runIn u).map s.settle := by
  rw [execute_eq_map, Eval.runIn_stmts_append hu hm, Eval.stmts_initial hq]

theorem agree_between {u : Session}
    (hs₁ : s₁ = { u with env := u.env.commit }) :
    Agree Set.univ u.env s₁.env.enter := by
  subst hs₁
  exact (Agree.refl _ u.env).of_get?_eq (fun _ => rfl) fun x => by simp

theorem sameScope_between {u : Session}
    (hu : (Eval.stmts n .null p).runIn { s with env := s.env.enter } = some (.ok v, u))
    (hnames : ∀ x ∈ Block.names q, x ∉ Block.names p) :
    SameScope {x | x ∈ Block.names q} u.env s₁.env.enter := by
  intro x hx
  change Scope.binds u.env.current x = false
  rw [Bool.eq_false_iff]
  intro hb
  rcases Eval.binds_of_stmts n .null p _ _ _ hu x hb with h | h
  · cases h
  · exact hnames x hx h

/--
Let `p` end normally in `s`, leaving `s₁`, and let `q` bind no name again that `p` binds. Then the
execution of both as one program ends just if that of `q` in `s₁` does, and it shows the same.
If it gives a value, nothing executed later shows a difference between the two sessions left;
otherwise each of them has the bindings it began with.
-/
theorem execute_append_agrees (hp : (Eval.program n p).runIn s = some (.ok v, s₁)) (hq : q ≠ [])
    (hnames : ∀ x ∈ Block.names q, x ∉ Block.names p) :
    s.execute n p = some (.ok v, s₁) ∧
      ((∃ k o, s.execute k (p ++ q) = some o) ↔ ∃ k o, s₁.execute k q = some o) ∧
      ∀ k r t k' r' t', s.execute k (p ++ q) = some (r, t) → s₁.execute k' q = some (r', t') →
        shown r = shown r' ∧
          (∀ w, r = .ok w → ∀ ps rs, t.Shows ps rs ↔ t'.Shows ps rs) ∧
          ∀ e, r = .error e → t.env = s.env ∧ t'.env = s₁.env := by
  obtain ⟨u, hu, hs₁⟩ := exists_between hp
  have hagree := agree_between hs₁
  have hscope : SameScope {x | x ∈ Block.names q} u.env s₁.env.enter := sameScope_between hu hnames
  have hforth {k : Nat} {o : Except Fault Value × Session}
      (ho : s.execute k (p ++ q) = some o) :
      ∃ k' o', s₁.execute k' q = some o' ∧ SameEnd s s₁ o o' := by
    have hle : k ≤ max n k + p.length := by omega
    have ho' := execute_mono hle ho
    rw [execute_append_eq hq hu (Nat.le_max_left n k)] at ho'
    obtain ⟨w, hw, rfl⟩ := Option.map_eq_some_iff.1 ho'
    obtain ⟨w', hw', hm⟩ := matched_of_stmts { s₁ with env := s₁.env.enter } hagree hscope hw
    exact ⟨_, _, by rw [execute_eq_map, hw']; rfl, sameEnd_of_matched hm⟩
  refine ⟨by unfold execute; rw [hp]; rfl, ⟨?_, ?_⟩, ?_⟩
  · rintro ⟨k, o, ho⟩
    obtain ⟨k', o', ho', -⟩ := hforth ho
    exact ⟨k', o', ho'⟩
  · rintro ⟨k, o, ho⟩
    have ho' := execute_mono (Nat.le_max_right n k) ho
    rw [execute_eq_map] at ho'
    obtain ⟨w, hw, -⟩ := Option.map_eq_some_iff.1 ho'
    obtain ⟨w', hw', -⟩ := matched_of_stmts u hagree.symm (fun x hx => (hscope x hx).symm) hw
    refine ⟨max n k + p.length, s.settle w', ?_⟩
    rw [execute_append_eq hq hu (Nat.le_max_left n k), hw']
    rfl
  · intro k r t k' r' t' ho ho'
    obtain ⟨k'', o'', ho'', hend⟩ := hforth ho
    obtain rfl := execute_unique ho'' ho'
    refine ⟨hend.shown, fun w hw ps rs => shows_iff_of_alike (hend.alike w hw), hend.restored⟩

/-- A name is bound and captured in the first program, and the second calls the function. -/
theorem execute_append_agrees_captured : ∃ s₁ t t',
    (fresh 0).execute 20 [.bind "x" (.int 5), .bind "f" (.fn [] [.expr (.ident "x")])] =
        some (.ok (.function 0 [] [.expr (.ident "x")] ⟨[("x", .int 5)], [[]]⟩), s₁) ∧
      (fresh 0).execute 20 ([.bind "x" (.int 5), .bind "f" (.fn [] [.expr (.ident "x")])] ++
        [.bind "y" (.int 2), .expr (.binary .add (.call (.ident "f") []) (.ident "y"))]) =
          some (.ok (.int 7), t) ∧
      s₁.execute 20
        [.bind "y" (.int 2), .expr (.binary .add (.call (.ident "f") []) (.ident "y"))] =
          some (.ok (.int 7), t') ∧
      ∀ ps rs, t.Shows ps rs ↔ t'.Shows ps rs := by
  have h := execute_append_agrees (n := 20) (s := fresh 0)
    (p := [.bind "x" (.int 5), .bind "f" (.fn [] [.expr (.ident "x")])])
    (q := [.bind "y" (.int 2), .expr (.binary .add (.call (.ident "f") []) (.ident "y"))])
    rfl (by simp) (by decide)
  exact ⟨_, _, _, h.1, rfl, rfl, (h.2.2 20 _ _ 20 _ _ rfl rfl).2.1 _ rfl⟩

end Append

end Session

end Monkey

import Monkey.Proofs.Evaluation.Coincidence
import Monkey.Proofs.Evaluation.Yields

/-! # Evaluations that end together

Two evaluations correspond if each ends when the other does, at whatever depths, and
their ends are then related. The two may be of different programs and take different
numbers of nested rules. One rule for each way in which evaluations are put together.
-/

namespace Monkey.Eval

variable {α β γ δ : Type}

namespace Yields

variable {x : Nat → Eval α} {s : Session} {o o' : Except Abrupt α × Session}

theorem unique (h : Yields x s o) (h' : Yields x s o') : o = o' := by
  obtain ⟨m, h⟩ := h
  obtain ⟨k, h'⟩ := h'
  have hm := h (max m k) (Nat.le_max_left m k)
  rw [h' (max m k) (Nat.le_max_right m k)] at hm
  exact (Option.some.inj hm).symm

theorem add (h : Yields x s o) (i : Nat) : Yields (fun n => x (n + i)) s o := by
  obtain ⟨least, h⟩ := h
  exact ⟨least, fun n hn => h (n + i) (Nat.le_add_right_of_le hn)⟩

end Yields

/-- Whether `x` ends in `s` if and only if `y` ends in `s'`, and the ends are related. -/
structure Corresponds (x : Nat → Eval α) (s : Session) (y : Nat → Eval β) (s' : Session)
    (R : Except Abrupt α × Session → Except Abrupt β × Session → Prop) : Prop where
  forth : ∀ n o, (x n).runIn s = some o → ∃ o', Yields y s' o' ∧ R o o'
  back : ∀ n o', (y n).runIn s' = some o' → ∃ o, Yields x s o ∧ R o o'

/-- What two evaluations go on to do from related ends: what ended abruptly stays as it is. -/
def Continues (f : Nat → α → Eval γ) (g : Nat → β → Eval δ)
    (R : Except Abrupt γ × Session → Except Abrupt δ × Session → Prop) :
    Except Abrupt α × Session → Except Abrupt β × Session → Prop
  | (.ok a, t), (.ok b, t') => Corresponds (fun n => f n a) t (fun n => g n b) t' R
  | (.error e, t), (.error e', t') => R (.error e, t) (.error e', t')
  | _, _ => False

namespace Corresponds

variable {x : Nat → Eval α} {y : Nat → Eval β} {s s₁ s' s'' : Session}
  {f : Nat → α → Eval γ} {g : Nat → β → Eval δ}
  {R R' : Except Abrupt α × Session → Except Abrupt β × Session → Prop}
  {Q : Except Abrupt γ × Session → Except Abrupt δ × Session → Prop}

theorem imp (h : Corresponds x s y s' R) (hR : ∀ o o', R o o' → R' o o') :
    Corresponds x s y s' R' where
  forth n o ho :=
    let ⟨o', ho', hrel⟩ := h.forth n o ho
    ⟨o', ho', hR o o' hrel⟩
  back n o' ho' :=
    let ⟨o, ho, hrel⟩ := h.back n o' ho'
    ⟨o, ho, hR o o' hrel⟩

theorem symm (h : Corresponds x s y s' R) : Corresponds y s' x s fun o' o => R o o' :=
  ⟨h.back, h.forth⟩

/-- Evaluations that end at any depth. -/
theorem of_ends {o : Except Abrupt α × Session} {o' : Except Abrupt β × Session}
    (hx : ∀ n, (x n).runIn s = some o) (hy : ∀ n, (y n).runIn s' = some o') (h : R o o') :
    Corresponds x s y s' R where
  forth n p hp := by
    rw [hx] at hp
    cases hp
    exact ⟨o', ⟨0, fun n _ => hy n⟩, h⟩
  back n p' hp' := by
    rw [hy] at hp'
    cases hp'
    exact ⟨o, ⟨0, fun n _ => hx n⟩, h⟩

/-- The depth makes no difference to an evaluation that ends. -/
theorem deeper (hx : ∀ n, Refines (x n) (x (n + 1))) (s : Session) (i : Nat) :
    Corresponds x s (fun n => x (n + i)) s Eq where
  forth _ o ho := ⟨o, (Yields.of_runIn hx ho).add i, rfl⟩
  back _ o ho := ⟨o, .of_runIn hx ho, rfl⟩

theorem trans {z : Nat → Eval γ} {R' : Except Abrupt β × Session → Except Abrupt γ × Session → Prop}
    {Q : Except Abrupt α × Session → Except Abrupt γ × Session → Prop}
    (h : Corresponds x s y s' R) (h' : Corresponds y s' z s'' R')
    (hQ : ∀ o p o', R o p → R' p o' → Q o o') : Corresponds x s z s'' Q where
  forth n o ho := by
    obtain ⟨p, ⟨least, hp⟩, hrel⟩ := h.forth n o ho
    obtain ⟨o', ho', hrel'⟩ := h'.forth least p (hp least (Nat.le_refl least))
    exact ⟨o', ho', hQ o p o' hrel hrel'⟩
  back n o' ho' := by
    obtain ⟨p, ⟨least, hp⟩, hrel'⟩ := h'.back n o' ho'
    obtain ⟨o, ho, hrel⟩ := h.back least p (hp least (Nat.le_refl least))
    exact ⟨o, ho, hQ o p o' hrel hrel'⟩

theorem of_succ_left (hx : x 0 = tooDeep) (h : Corresponds (fun n => x (n + 1)) s y s' R) :
    Corresponds x s y s' R where
  forth n o ho := by
    cases n with
    | zero =>
      rw [hx] at ho
      cases ho
    | succ n => exact h.forth n o ho
  back n o' ho' := by
    obtain ⟨o, ho, hrel⟩ := h.back n o' ho'
    exact ⟨o, .of_succ ho, hrel⟩

theorem of_succ_right (hy : y 0 = tooDeep) (h : Corresponds x s (fun n => y (n + 1)) s' R) :
    Corresponds x s y s' R :=
  (of_succ_left hy h.symm).symm

theorem succ_left (h : Corresponds x s y s' R) : Corresponds (fun n => x (n + 1)) s y s' R where
  forth n o ho := h.forth (n + 1) o ho
  back n o' ho' :=
    let ⟨o, ho, hrel⟩ := h.back n o' ho'
    ⟨o, ho.add 1, hrel⟩

/-- An evaluation whose end is read off that of another one. -/
theorem map_left {z : Nat → Eval γ} {φ : Except Abrupt α × Session → Except Abrupt γ × Session}
    {R : Except Abrupt γ × Session → Except Abrupt β × Session → Prop}
    (hz : ∀ n, (z n).runIn s₁ = ((x n).runIn s).map φ)
    (h : Corresponds x s y s' fun o o' => R (φ o) o') : Corresponds z s₁ y s' R where
  forth n p hp := by
    rw [hz] at hp
    obtain ⟨o, ho, rfl⟩ := Option.map_eq_some_iff.1 hp
    exact h.forth n o ho
  back n o' ho' := by
    obtain ⟨o, ⟨least, ho⟩, hrel⟩ := h.back n o' ho'
    exact ⟨φ o, ⟨least, fun n hn => by rw [hz, ho n hn]; rfl⟩, hrel⟩

theorem map_right {z : Nat → Eval δ} {φ : Except Abrupt β × Session → Except Abrupt δ × Session}
    {R : Except Abrupt α × Session → Except Abrupt δ × Session → Prop}
    (hz : ∀ n, (z n).runIn s₁ = ((y n).runIn s').map φ)
    (h : Corresponds x s y s' fun o o' => R o (φ o')) : Corresponds x s z s₁ R :=
  (map_left hz h.symm).symm

/-- The end of the second evaluation may be referred to. -/
theorem and_yields (hy : ∀ n, Refines (y n) (y (n + 1))) (h : Corresponds x s y s' R) :
    Corresponds x s y s' fun o o' => R o o' ∧ Yields y s' o' where
  forth n o ho :=
    let ⟨o', ho', hrel⟩ := h.forth n o ho
    ⟨o', ho', hrel, ho'⟩
  back n o' ho' :=
    let ⟨o, ho, hrel⟩ := h.back n o' ho'
    ⟨o, ho, hrel, .of_runIn hy ho'⟩

theorem bind (h : Corresponds x s y s' R) (hf : ∀ o o', R o o' → Continues f g Q o o') :
    Corresponds (fun n => x n >>= f n) s (fun n => y n >>= g n) s' Q where
  forth n p hp := by
    rw [runIn_bind] at hp
    obtain ⟨⟨r, t⟩, ho, hp⟩ := Option.bind_eq_some_iff.1 hp
    obtain ⟨⟨r', t'⟩, ho', hrel⟩ := h.forth n _ ho
    have hnext := hf _ _ hrel
    match r, r', hnext with
    | .ok a, .ok b, hnext =>
      obtain ⟨p', hp', hrel'⟩ := hnext.forth n p hp
      exact ⟨p', ho'.bind hp', hrel'⟩
    | .error e, .error e', hnext =>
      cases hp
      exact ⟨_, ho'.bind_error, hnext⟩
  back n p' hp' := by
    rw [runIn_bind] at hp'
    obtain ⟨⟨r', t'⟩, ho', hp'⟩ := Option.bind_eq_some_iff.1 hp'
    obtain ⟨⟨r, t⟩, ho, hrel⟩ := h.back n _ ho'
    have hnext := hf _ _ hrel
    match r, r', hnext with
    | .ok a, .ok b, hnext =>
      obtain ⟨p, hp, hrel'⟩ := hnext.back n p' hp'
      exact ⟨p, ho.bind hp, hrel'⟩
    | .error e, .error e', hnext =>
      cases hp'
      exact ⟨_, ho.bind_error, hnext⟩

theorem bind_left {Q : Except Abrupt γ × Session → Except Abrupt β × Session → Prop}
    (h : Corresponds x s y s' R)
    (hf : ∀ o o', R o o' → Continues f (fun _ b => Pure.pure b) Q o o') :
    Corresponds (fun n => x n >>= f n) s y s' Q := by
  simpa only [bind_pure] using h.bind hf

theorem bind_right {Q : Except Abrupt α × Session → Except Abrupt δ × Session → Prop}
    (h : Corresponds x s y s' R)
    (hg : ∀ o o', R o o' → Continues (fun _ a => Pure.pure a) g Q o o') :
    Corresponds x s (fun n => y n >>= g n) s' Q := by
  simpa only [bind_pure] using h.bind hg

/-- Evaluations that coincide at every depth, in both directions. -/
theorem of_coincides {x : Nat → Eval Value} (hx : ∀ n, Refines (x n) (x (n + 1)))
    (h : ∀ n, Coincides (x n) s.env (x n) s'.env Value.Similar)
    (h' : ∀ n, Coincides (x n) s'.env (x n) s.env Value.Similar) :
    Corresponds x s x s'
      (Matched (fun v t w t' => v.Similar w ∧ t.env = s.env ∧ t'.env = s'.env)
        fun _ _ => True) where
  forth n o ho := by
    obtain ⟨o', ho', hm⟩ := h n s s' rfl rfl o ho
    refine ⟨o', .of_runIn hx ho', ?_⟩
    cases hm with
    | ok hvw => exact .ok hvw
    | returned hvw => exact .returned hvw trivial
    | fault e => exact .fault e trivial
  back n o' ho' := by
    obtain ⟨o, ho, hm⟩ := h' n s' s rfl rfl o' ho'
    refine ⟨o, .of_runIn hx ho, ?_⟩
    cases hm with
    | ok hvw => exact .ok ⟨hvw.1.symm, hvw.2.2, hvw.2.1⟩
    | returned hvw => exact .returned hvw.symm trivial
    | fault e => exact .fault e trivial

end Corresponds

/-! ## Rules in environments that agree -/

variable {G : Set String} {s s' : Session}

theorem expr_corresponds {e : Expr} (h : Environment.Agree G s.env s'.env) (he : e.Scoped G) :
    Corresponds (fun n => expr n e) s (fun n => expr n e) s'
      (Matched (fun v t w t' => v.Similar w ∧ t.env = s.env ∧ t'.env = s'.env)
        fun _ _ => True) :=
  .of_coincides (fun n => (deeperAt n).expr e) (fun n => (coincidesAt n).expr e h he)
    fun n => (coincidesAt n).expr e h.symm he

theorem block_corresponds {b : Block} (h : Environment.Agree G s.env s'.env)
    (hb : Stmt.AllScoped G b) :
    Corresponds (fun n => block n b) s (fun n => block n b) s'
      (Matched (fun v t w t' => v.Similar w ∧ t.env = s.env ∧ t'.env = s'.env)
        fun _ _ => True) :=
  .of_coincides (fun n => (deeperAt n).block b) (fun n => (coincidesAt n).block b h hb)
    fun n => (coincidesAt n).block b h.symm hb

/-! ## Statements in two parts -/

/--
Statements are evaluated one part after the other. The second part may start at any greater depth,
as it does where the first one was entered by the same number of rules.
-/
theorem stmts_append_corresponds (v : Value) (p q : List Stmt) (i : Nat) (s : Session) :
    Corresponds (fun n => stmts n v p >>= fun w => stmts (n + i) w q) s
      (fun n => stmts n v (p ++ q)) s Eq := by
  have hq (w : Value) (n : Nat) : Refines (stmts n w q) (stmts (n + 1) w q) :=
    (deeperAt n).stmts w q
  induction p generalizing v i s with
  | nil =>
    refine .of_succ_left rfl ?_
    have hdeeper := (Corresponds.deeper (hq v) s (1 + i)).symm
    simp only [← Nat.add_assoc] at hdeeper
    exact hdeeper.imp fun _ _ h => h.symm
  | cons st p ih =>
    refine .of_succ_left rfl (.of_succ_right rfl ?_)
    have hst := Corresponds.deeper (fun n => (deeperAt n).stmt st) s 0
    have hparts := hst.bind (Q := Eq)
      (f := fun n w => stmts n w p >>= fun w => stmts (n + (1 + i)) w q)
      (g := fun n w => stmts n w (p ++ q)) ?_
    · simp only [← bind_assoc, ← Nat.add_assoc] at hparts
      exact hparts
    · rintro ⟨r, t⟩ _ rfl
      cases r with
      | ok w => exact ih w (1 + i) t
      | error e => exact rfl

end Monkey.Eval

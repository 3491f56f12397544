import Monkey.Proofs.Evaluation.Frame
import Monkey.Proofs.Evaluation.Similar

/-! # Evaluation looks at names only

Two evaluations of one part of a program, begun in environments that agree on
the names it looks up, have the same outcome up to similar values, and one of
them ends if the other does. Functions made on the way capture different scopes
on the two sides; they are similar all the same.
-/

namespace Monkey.Eval

open Environment (Agree SameScope)

variable {α β γ δ : Type}

/-- Ends of two evaluations that no program can tell apart. -/
inductive Matched (Ok : α → Session → β → Session → Prop) (Abr : Session → Session → Prop) :
    Except Abrupt α × Session → Except Abrupt β × Session → Prop
  | ok {a : α} {b : β} {t t' : Session} : Ok a t b t' → Matched Ok Abr (.ok a, t) (.ok b, t')
  | returned {v w : Value} {t t' : Session} : v.Similar w → Abr t t' →
      Matched Ok Abr (.error (.returned v), t) (.error (.returned w), t')
  | fault (e : Fault) {t t' : Session} : Abr t t' →
      Matched Ok Abr (.error (.fault e), t) (.error (.fault e), t')

/-- If `x` ends in `s`, then `y` ends in `s'`, and the two ends match. -/
def Simulates (x : Eval α) (s : Session) (y : Eval β) (s' : Session)
    (Ok : α → Session → β → Session → Prop) (Abr : Session → Session → Prop) : Prop :=
  ∀ p, x.runIn s = some p → ∃ p', y.runIn s' = some p' ∧ Matched Ok Abr p p'

namespace Simulates

variable {x : Eval α} {y : Eval β} {s s' : Session} {f : α → Eval γ} {g : β → Eval δ}
  {Ok Ok₁ : α → Session → β → Session → Prop} {Ok' : γ → Session → δ → Session → Prop}
  {Abr Abr₁ : Session → Session → Prop}

theorem imp (h : Simulates x s y s' Ok₁ Abr₁)
    (hok : ∀ a t b t', Ok₁ a t b t' → Ok a t b t') (habr : ∀ t t', Abr₁ t t' → Abr t t') :
    Simulates x s y s' Ok Abr := by
  intro p hp
  obtain ⟨p', hp', hm⟩ := h p hp
  refine ⟨p', hp', ?_⟩
  cases hm with
  | ok h => exact .ok (hok _ _ _ _ h)
  | returned hv h => exact .returned hv (habr _ _ h)
  | fault e h => exact .fault e (habr _ _ h)

theorem pure {a : α} {b : β} (h : Ok a s b s') :
    Simulates (Pure.pure a) s (Pure.pure b) s' Ok Abr := by
  intro p hp
  cases hp
  exact ⟨_, rfl, .ok h⟩

theorem fail (e : Fault) (h : Abr s s') :
    Simulates (fail e : Eval α) s (fail e : Eval β) s' Ok Abr := by
  intro p hp
  cases hp
  exact ⟨_, rfl, .fault e h⟩

theorem returning {v w : Value} (hv : v.Similar w) (h : Abr s s') :
    Simulates (returning v : Eval α) s (returning w : Eval β) s' Ok Abr := by
  intro p hp
  cases hp
  exact ⟨_, rfl, .returned hv h⟩

theorem tooDeep : Simulates (tooDeep : Eval α) s y s' Ok Abr := by
  intro p hp
  simp at hp

theorem bind (hx : Simulates x s y s' Ok Abr₁)
    (hf : ∀ a t b t', Ok a t b t' → Simulates (f a) t (g b) t' Ok' Abr)
    (habr : ∀ t t', Abr₁ t t' → Abr t t') : Simulates (x >>= f) s (y >>= g) s' Ok' Abr := by
  intro p hp
  rw [runIn_bind] at hp
  obtain ⟨q, hq, hrest⟩ := Option.bind_eq_some_iff.1 hp
  obtain ⟨q', hq', hm⟩ := hx q hq
  rw [runIn_bind, hq']
  cases hm with
  | ok h => exact hf _ _ _ _ h p hrest
  | returned hv h =>
    cases hrest
    exact ⟨_, rfl, .returned hv (habr _ _ h)⟩
  | fault e h =>
    cases hrest
    exact ⟨_, rfl, .fault e (habr _ _ h)⟩

theorem inScope {Ok : α → β → Prop}
    (h : Simulates x { s with env := s.env.enter } y { s' with env := s'.env.enter }
      (fun a _ b _ => Ok a b) fun _ _ => True) :
    Simulates (inScope x) s (inScope y) s' (fun a _ b _ => Ok a b) fun _ _ => True := by
  intro p hp
  rw [runIn_inScope] at hp
  obtain ⟨q, hq, rfl⟩ := Option.map_eq_some_iff.1 hp
  obtain ⟨q', hq', hm⟩ := h q hq
  rw [runIn_inScope, hq']
  cases hm with
  | ok h => exact ⟨_, rfl, .ok h⟩
  | returned hv _ => exact ⟨_, rfl, .returned hv trivial⟩
  | fault e _ => exact ⟨_, rfl, .fault e trivial⟩

theorem within {Ok : α → β → Prop} {env env' : Environment Value}
    (h : Simulates x { s with env } y { s' with env := env' }
      (fun a _ b _ => Ok a b) fun _ _ => True) :
    Simulates (within env x) s (within env' y) s' (fun a _ b _ => Ok a b) fun _ _ => True := by
  intro p hp
  rw [runIn_within] at hp
  obtain ⟨q, hq, rfl⟩ := Option.map_eq_some_iff.1 hp
  obtain ⟨q', hq', hm⟩ := h q hq
  rw [runIn_within, hq']
  cases hm with
  | ok h => exact ⟨_, rfl, .ok h⟩
  | returned hv _ => exact ⟨_, rfl, .returned hv trivial⟩
  | fault e _ => exact ⟨_, rfl, .fault e trivial⟩

theorem landing {x y : Eval Value}
    (h : Simulates x s y s' (fun v _ w _ => v.Similar w) fun _ _ => True) :
    Simulates (landing x) s (landing y) s' (fun v _ w _ => v.Similar w) fun _ _ => True := by
  intro p hp
  rw [runIn_landing] at hp
  obtain ⟨q, hq, rfl⟩ := Option.map_eq_some_iff.1 hp
  obtain ⟨q', hq', hm⟩ := h q hq
  rw [runIn_landing, hq']
  cases hm with
  | ok h => exact ⟨_, rfl, .ok h⟩
  | returned hv _ => exact ⟨_, rfl, .ok hv⟩
  | fault e _ => exact ⟨_, rfl, .fault e trivial⟩

end Simulates

/-- `x` in the environment `e` is simulated by `y` in `e'`, and both environments are kept. -/
def Coincides (x : Eval α) (e : Environment Value) (y : Eval β) (e' : Environment Value)
    (Ok : α → β → Prop) : Prop :=
  ∀ s s', s.env = e → s'.env = e' →
    Simulates x s y s' (fun a t b t' => Ok a b ∧ t.env = e ∧ t'.env = e')
      fun t t' => t.env = e ∧ t'.env = e'

namespace Coincides

variable {x : Eval α} {y : Eval β} {e e' : Environment Value} {f : α → Eval γ} {g : β → Eval δ}
  {Ok : α → β → Prop} {Ok' : γ → δ → Prop}

theorem pure {a : α} {b : β} (h : Ok a b) : Coincides (Pure.pure a) e (Pure.pure b) e' Ok :=
  fun _ _ hs hs' => .pure ⟨h, hs, hs'⟩

theorem fail (fault : Fault) : Coincides (fail fault : Eval α) e (fail fault : Eval β) e' Ok :=
  fun _ _ hs hs' => .fail fault ⟨hs, hs'⟩

theorem ofExcept {r : Except Fault Value} (h : IsOperatorResult r) :
    Coincides (ofExcept r) e (ofExcept r) e' Value.Similar := by
  cases r with
  | ok v => exact .pure (.data h)
  | error fault => exact .fail fault

theorem tooDeep : Coincides (tooDeep : Eval α) e y e' Ok := fun _ _ _ _ => .tooDeep

theorem bind (hx : Coincides x e y e' Ok)
    (hf : ∀ a b, Ok a b → Coincides (f a) e (g b) e' Ok') :
    Coincides (x >>= f) e (y >>= g) e' Ok' := by
  intro s s' hs hs'
  refine (hx s s' hs hs').bind ?_ fun _ _ h => h
  rintro a t b t' ⟨hab, ht, ht'⟩
  exact hf a b hab t t' ht ht'

theorem of_frames (hx : Frames x) (hy : Frames y)
    (h : ∀ s s', s.env = e → s'.env = e' →
      Simulates x s y s' (fun a _ b _ => Ok a b) fun _ _ => True) :
    Coincides x e y e' Ok := by
  intro s s' hs hs' p hp
  obtain ⟨p', hp', hm⟩ := h s s' hs hs' p hp
  have ht := (hx s _ _ hp).trans hs
  have ht' := (hy s' _ _ hp').trans hs'
  refine ⟨p', hp', ?_⟩
  cases hm with
  | ok h => exact .ok ⟨h, ht, ht'⟩
  | returned hv _ => exact .returned hv ⟨ht, ht'⟩
  | fault fault _ => exact .fault fault ⟨ht, ht'⟩

theorem lookup {G : Set String} (h : Agree G e e') {name : String} (hname : name ∈ G) :
    Coincides (lookup name) e (lookup name) e' Value.Similar := by
  rintro s s' rfl rfl p hp
  rw [runIn_lookup, Environment.get] at hp ⊢
  rcases h.get? hname with ⟨hv, hw⟩ | ⟨v, w, hv, hw, hvw⟩
  · rw [hv] at hp
    cases hp
    exact ⟨_, by rw [hw]; rfl, .fault _ ⟨rfl, rfl⟩⟩
  · rw [hv] at hp
    cases hp
    exact ⟨_, by rw [hw]; rfl, .ok ⟨hvw, rfl, rfl⟩⟩

theorem makeFunction {G : Set String} (h : Agree G e e') {params : List String} {body : Block}
    (hbody : Stmt.AllScoped (G ∪ {x | x ∈ params}) body) :
    Coincides (makeFunction params body) e (makeFunction params body) e' Value.Similar := by
  rintro s s' rfl rfl p hp
  rw [runIn_makeFunction] at hp ⊢
  cases hp
  exact ⟨_, rfl, .ok ⟨.function G hbody h.binds h.values, rfl, rfl⟩⟩

end Coincides

/-- What coincidence means for each rule when `n` nested rules may start. -/
structure CoincidesAt (n : Nat) : Prop where
  expr {G : Set String} {e e' : Environment Value} (x : Expr) : Agree G e e' → x.Scoped G →
    Coincides (expr n x) e (expr n x) e' Value.Similar
  exprs {G : Set String} {e e' : Environment Value} (xs : List Expr) : Agree G e e' →
    Expr.AllScoped G xs → Coincides (exprs n xs) e (exprs n xs) e' fun vs ws =>
      vs.length = xs.length ∧ List.Forall₂ Value.Similar vs ws
  stmt {G D : Set String} {s s' : Session} (st : Stmt) : Agree G s.env s'.env →
    SameScope D s.env s'.env → (∀ x ∈ st.name?, x ∈ D) → st.Scoped G →
    Simulates (stmt n st) s (stmt n st) s'
      (fun v t w t' => v.Similar w ∧ Agree (G ∪ {x | x ∈ st.name?}) t.env t'.env ∧
        SameScope D t.env t'.env)
      fun t t' => Agree G t.env t'.env
  stmts {G D : Set String} {s s' : Session} {v w : Value} (ss : List Stmt) : v.Similar w →
    Agree G s.env s'.env → SameScope D s.env s'.env → (∀ x ∈ Block.names ss, x ∈ D) →
    Stmt.AllScoped G ss →
    Simulates (stmts n v ss) s (stmts n w ss) s'
      (fun v t w t' => v.Similar w ∧ Agree G t.env t'.env) fun t t' => Agree G t.env t'.env
  block {G : Set String} {e e' : Environment Value} (b : Block) : Agree G e e' →
    Stmt.AllScoped G b → Coincides (block n b) e (block n b) e' Value.Similar
  call {G : Set String} {c c' e e' : Environment Value} {vs ws : List Value}
    (params : List String) (body : Block) : Agree G c c' →
    Stmt.AllScoped (G ∪ {x | x ∈ params}) body → List.Forall₂ Value.Similar vs ws →
    Coincides (call n params body c vs) e (call n params body c' ws) e' Value.Similar

variable {n : Nat} {G D : Set String} {e e' : Environment Value} {s s' : Session}

theorem coincides_expr_succ (ih : CoincidesAt n) (x : Expr) (h : Agree G e e')
    (hx : x.Scoped G) : Coincides (expr (n + 1) x) e (expr (n + 1) x) e' Value.Similar := by
  cases x with
  | ident name => exact .lookup h hx
  | int n => exact .pure (.data nofun)
  | str s => exact .pure (.data nofun)
  | bool b => exact .pure (.data nofun)
  | unary op operand =>
    apply (ih.expr operand h hx).bind
    intro v w hvw
    rw [op.apply_congr hvw.alike]
    exact .ofExcept (op.apply_isOperatorResult w)
  | binary op left right =>
    apply (ih.expr left h hx.1).bind
    intro v w hvw
    apply (ih.expr right h hx.2).bind
    intro v' w' hvw'
    rw [op.apply_congr hvw.alike hvw'.alike]
    exact .ofExcept (op.apply_isOperatorResult w w')
  | cond condition consequence alternative =>
    obtain ⟨hcond, hcons, halt⟩ := Expr.scoped_cond_iff.1 hx
    apply (ih.expr condition h hcond).bind
    intro v w hvw
    cases hvw with
    | data _ =>
      cases v with
      | bool b =>
        cases b with
        | true => exact ih.block consequence h hcons
        | false =>
          cases alternative with
          | none => exact .pure (.data nofun)
          | some alternative => exact ih.block alternative h (halt _ rfl)
      | _ => exact .fail _
    | function => exact .fail _
  | fn params body => exact .makeFunction h hx
  | call callee args =>
    apply (ih.expr callee h hx.1).bind
    intro v w hvw
    cases hvw with
    | data hv =>
      cases v with
      | function id params body captured => exact absurd rfl hv
      | _ => exact .fail _
    | function G' hbody hbinds hvalues =>
      apply (ih.exprs args h hx.2).bind
      intro vs ws hvs
      exact ih.call _ _ ⟨hbinds, hvalues⟩ hbody hvs.2

theorem coincides_exprs_succ (ih : CoincidesAt n) (xs : List Expr) (h : Agree G e e')
    (hxs : Expr.AllScoped G xs) :
    Coincides (exprs (n + 1) xs) e (exprs (n + 1) xs) e' fun vs ws =>
      vs.length = xs.length ∧ List.Forall₂ Value.Similar vs ws := by
  cases xs with
  | nil => exact .pure ⟨rfl, .nil⟩
  | cons x xs =>
    apply (ih.expr x h hxs.1).bind
    intro v w hvw
    refine (ih.exprs xs h hxs.2).bind fun vs ws hvs => .pure ?_
    exact ⟨congrArg (· + 1) hvs.1, .cons hvw hvs.2⟩

theorem simulates_define {name : String} {v w : Value} (h : Agree G s.env s'.env)
    (hs : SameScope D s.env s'.env) (hname : name ∈ D) (hvw : v.Similar w) :
    Simulates (define name v) s (define name w) s'
      (fun _ t _ t' => Agree (G ∪ {name}) t.env t'.env ∧ SameScope D t.env t'.env)
      fun t t' => Agree G t.env t'.env := by
  intro p hp
  rw [runIn_define] at hp ⊢
  rcases hs.define_cases hname v w with ⟨hd, hd'⟩ | ⟨d, d', hd, hd'⟩
  · rw [hd] at hp
    cases hp
    exact ⟨_, by rw [hd'], .fault _ h⟩
  · rw [hd] at hp
    cases hp
    exact ⟨_, by rw [hd'], .ok ⟨h.define hvw hd hd', hs.define hd hd'⟩⟩

theorem coincides_stmt_succ (ih : CoincidesAt n) (st : Stmt) (h : Agree G s.env s'.env)
    (hs : SameScope D s.env s'.env) (hD : ∀ x ∈ st.name?, x ∈ D) (hst : st.Scoped G) :
    Simulates (stmt (n + 1) st) s (stmt (n + 1) st) s'
      (fun v t w t' => v.Similar w ∧ Agree (G ∪ {x | x ∈ st.name?}) t.env t'.env ∧
        SameScope D t.env t'.env)
      fun t t' => Agree G t.env t'.env := by
  have hkeep (t t' : Session) (ht : t.env = s.env ∧ t'.env = s'.env) : Agree G t.env t'.env := by
    rw [ht.1, ht.2]
    exact h
  cases st with
  | bind name value =>
    refine (ih.expr value h hst s s' rfl rfl).bind ?_ hkeep
    rintro v t w t' ⟨hvw, ht, ht'⟩
    rw [← ht, ← ht'] at h hs
    refine (simulates_define h hs (hD name rfl) hvw).bind ?_ fun _ _ h => h
    rintro _ u _ u' ⟨hu, hus⟩
    exact .pure ⟨hvw, hu.subset (by simp [Stmt.name?]), hus⟩
  | ret value =>
    refine (ih.expr value h hst s s' rfl rfl).bind ?_ hkeep
    rintro v t w t' ⟨hvw, ht⟩
    exact .returning hvw (hkeep t t' ht)
  | expr value =>
    refine (ih.expr value h hst s s' rfl rfl).imp ?_ hkeep
    rintro v t w t' ⟨hvw, ht, ht'⟩
    rw [ht, ht']
    exact ⟨hvw, h.subset (by simp [Stmt.name?]), hs⟩

theorem coincides_stmts_succ (ih : CoincidesAt n) {v w : Value} (ss : List Stmt)
    (hvw : v.Similar w) (h : Agree G s.env s'.env) (hs : SameScope D s.env s'.env)
    (hD : ∀ x ∈ Block.names ss, x ∈ D) (hss : Stmt.AllScoped G ss) :
    Simulates (stmts (n + 1) v ss) s (stmts (n + 1) w ss) s'
      (fun v t w t' => v.Similar w ∧ Agree G t.env t'.env) fun t t' => Agree G t.env t'.env := by
  cases ss with
  | nil => exact .pure ⟨hvw, h⟩
  | cons st ss =>
    have hst : ∀ x ∈ st.name?, x ∈ D := fun x hx =>
      hD x (List.mem_filterMap.2 ⟨st, List.mem_cons_self, hx⟩)
    have hrest : ∀ x ∈ Block.names ss, x ∈ D := fun x hx => by
      obtain ⟨s, hs, hx⟩ := List.mem_filterMap.1 hx
      exact hD x (List.mem_filterMap.2 ⟨s, List.mem_cons_of_mem _ hs, hx⟩)
    refine (ih.stmt st h hs hst hss.1).bind ?_ fun _ _ h => h
    rintro v' t w' t' ⟨hvw', ht, hts⟩
    refine (ih.stmts ss hvw' ht hts hrest hss.2).imp ?_ ?_
    · rintro v u w u' ⟨hv, hu⟩
      exact ⟨hv, hu.subset Set.subset_union_left⟩
    · exact fun _ _ hu => hu.subset Set.subset_union_left

theorem coincides_block_succ (ih : CoincidesAt n) (b : Block) (h : Agree G e e')
    (hb : Stmt.AllScoped G b) :
    Coincides (block (n + 1) b) e (block (n + 1) b) e' Value.Similar := by
  refine .of_frames ((framesAt (n + 1)).block b) ((framesAt (n + 1)).block b) ?_
  rintro s s' rfl rfl
  refine .inScope ((ih.stmts b (.refl _) h.enter .enter (fun x _ => Set.mem_univ x) hb).imp ?_ ?_)
  · rintro v t w t' ⟨hvw, -⟩
    exact hvw
  · exact fun _ _ _ => trivial

theorem coincides_call_succ (ih : CoincidesAt n) {c c' : Environment Value} {vs ws : List Value}
    (params : List String) (body : Block) (h : Agree G c c')
    (hbody : Stmt.AllScoped (G ∪ {x | x ∈ params}) body)
    (hvs : List.Forall₂ Value.Similar vs ws) :
    Coincides (call (n + 1) params body c vs) e (call (n + 1) params body c' ws) e'
      Value.Similar := by
  unfold call
  rw [← hvs.length_eq]
  split
  · next hlen =>
    rcases h.enter.defineAll .enter hvs hlen with ⟨name, hd, hd'⟩ | ⟨d, d', hd, hd', hdd'⟩
    · rw [hd, hd']
      exact .fail _
    · rw [hd, hd']
      refine .of_frames (.within d _) (.within d' _) fun s s' _ _ => ?_
      refine .within (.landing ((ih.block body hdd' hbody _ _ rfl rfl).imp ?_ ?_))
      · rintro v t w t' ⟨hvw, -⟩
        exact hvw
      · exact fun _ _ _ => trivial
  · exact .fail _

theorem coincidesAt (n : Nat) : CoincidesAt n := by
  induction n with
  | zero =>
    exact ⟨fun _ _ _ => .tooDeep, fun _ _ _ => .tooDeep, fun _ _ _ _ _ => .tooDeep,
      fun _ _ _ _ _ _ => .tooDeep, fun _ _ _ => .tooDeep, fun _ _ _ _ _ => .tooDeep⟩
  | succ n ih =>
    exact ⟨coincides_expr_succ ih, coincides_exprs_succ ih, coincides_stmt_succ ih,
      coincides_stmts_succ ih, coincides_block_succ ih, coincides_call_succ ih⟩

end Monkey.Eval

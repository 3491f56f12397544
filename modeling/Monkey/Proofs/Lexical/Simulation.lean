import Monkey.Proofs.Evaluation.Frame
import Monkey.Proofs.Lexical.Represents

/-! # Evaluation in scope chains follows plain lexical scoping

Evaluations of one part of a program, in a session and in a frame that stand for
each other, end alike: both exceed the depth, or they have the same fault, or
they give values that stand for each other, by a `return` on both sides or on
neither.
-/

namespace Monkey.Lexical

open Monkey (Session)

variable {α β γ δ : Type}

namespace Eval

theorem runIn_bind (x : Eval α) (k : α → Eval β) (f : Frame) :
    (x >>= k).runIn f = (x.runIn f).bind fun
      | (.ok a, g) => (k a).runIn g
      | (.error e, g) => some (.error e, g) := by
  simp only [runIn, ExceptT.run_bind, StateT.run_bind, Option.bind_eq_bind]
  congr 1
  funext ⟨r, g⟩
  cases r <;> rfl

theorem runIn_lookup (name : String) (f : Frame) :
    (lookup name).runIn f =
      match f.bindings.get? name with
      | some v => some (.ok v, f)
      | none => some (.error (.fault (.undefined name)), f) := by
  change (match f.bindings.get? name with
    | some v => (pure v : Eval Value)
    | none => fail (.undefined name)).runIn f = _
  cases f.bindings.get? name <;> rfl

theorem runIn_declare (name : String) (v : Value) (f : Frame) :
    (declare name v).runIn f =
      match f.declare name v with
      | .ok g => some (.ok (), g)
      | .error e => some (.error (.fault e), f) := by
  change (ofExcept (f.declare name v) >>= fun g => set g : Eval Unit).runIn f = _
  rw [runIn_bind]
  cases f.declare name v <;> rfl

theorem runIn_onCopy (m : Scope Value) (x : Eval α) (f : Frame) :
    (onCopy m x).runIn f = (x.runIn (.start m)).map fun (r, _) => (r, f) := by
  change ((x.runIn (.start m)).bind _) = _
  cases x.runIn (.start m) <;> rfl

theorem runIn_landing (x : Eval Value) (f : Frame) :
    (landing x).runIn f =
      (x.runIn f).map fun
        | (.error (.returned v), g) => (.ok v, g)
        | (r, g) => (r, g) := by
  change ((x.runIn f).bind _) = _
  rcases x.runIn f with _ | ⟨(_ | _) | _, _⟩ <;> rfl

end Eval

theorem rel_imp {R R' : α → β → Prop} {o : Option α} {o' : Option β} (h : Option.Rel R o o')
    (hR : ∀ a b, R a b → R' a b) : Option.Rel R' o o' := by
  cases h with
  | none => exact .none
  | some h => exact .some (hR _ _ h)

theorem rel_map {R : α → β → Prop} {R' : γ → δ → Prop} {o : Option α} {o' : Option β} {k : α → γ}
    {l : β → δ} (h : Option.Rel R o o') (hkl : ∀ a b, o = some a → R a b → R' (k a) (l b)) :
    Option.Rel R' (o.map k) (o'.map l) := by
  cases h with
  | none => exact .none
  | some h => exact .some (hkl _ _ rfl h)

theorem rel_bind {R : α → β → Prop} {R' : γ → δ → Prop} {o : Option α} {o' : Option β}
    {k : α → Option γ} {l : β → Option δ} (h : Option.Rel R o o')
    (hkl : ∀ a b, R a b → Option.Rel R' (k a) (l b)) :
    Option.Rel R' (o.bind k) (o'.bind l) := by
  cases h with
  | none => exact .none
  | some h => exact hkl _ _ h

/-- Ends of two evaluations that show the same. -/
inductive Matched (Val : α → β → Prop) (Post : Environment Monkey.Value → Frame → Prop) :
    Except Monkey.Abrupt α × Session → Except Abrupt β × Frame → Prop
  | ok {a : α} {b : β} {t : Session} {g : Frame} : Val a b → Post t.env g →
      Matched Val Post (.ok a, t) (.ok b, g)
  | returned {v : Monkey.Value} {w : Value} {t : Session} {g : Frame} : Represents v w →
      Post t.env g → Matched Val Post (.error (.returned v), t) (.error (.returned w), g)
  | fault (e : Fault) {t : Session} {g : Frame} :
      Matched Val Post (.error (.fault e), t) (.error (.fault e), g)

/-- The evaluation `y` in the frame `f` ends just if `x` does in the session `s`, and alike. -/
def Tracks (x : Monkey.Eval α) (s : Session) (y : Eval β) (f : Frame) (Val : α → β → Prop)
    (Post : Environment Monkey.Value → Frame → Prop) : Prop :=
  Option.Rel (Matched Val Post) (x.runIn s) (y.runIn f)

namespace Tracks

variable {x : Monkey.Eval α} {y : Eval β} {s : Session} {f : Frame} {k : α → Monkey.Eval γ}
  {l : β → Eval δ} {Val : α → β → Prop} {Val' : γ → δ → Prop}
  {Post Post' : Environment Monkey.Value → Frame → Prop}

theorem pure {a : α} {b : β} (h : Val a b) (hpost : Post s.env f) :
    Tracks (Pure.pure a) s (Pure.pure b) f Val Post :=
  .some (.ok h hpost)

theorem fail (e : Fault) : Tracks (Monkey.Eval.fail e) s (Eval.fail e) f Val Post :=
  .some (.fault e)

theorem returning {v : Monkey.Value} {w : Value} (h : Represents v w) (hpost : Post s.env f) :
    Tracks (Monkey.Eval.returning v) s (Eval.returning w) f Val Post :=
  .some (.returned h hpost)

theorem tooDeep : Tracks Monkey.Eval.tooDeep s Eval.tooDeep f Val Post :=
  .none

theorem imp (h : Tracks x s y f Val Post) (hpost : ∀ e g, Post e g → Post' e g) :
    Tracks x s y f Val Post' := by
  refine rel_imp h fun p q hm => ?_
  cases hm with
  | ok h hp => exact .ok h (hpost _ _ hp)
  | returned h hp => exact .returned h (hpost _ _ hp)
  | fault e => exact .fault e

theorem bind (hx : Tracks x s y f Val Post)
    (hk : ∀ a t b g, Val a b → Post t.env g → Tracks (k a) t (l b) g Val' Post')
    (hpost : ∀ e g, Post e g → Post' e g) : Tracks (x >>= k) s (y >>= l) f Val' Post' := by
  unfold Tracks
  rw [Monkey.Eval.runIn_bind, Eval.runIn_bind]
  refine rel_bind hx fun p q hm => ?_
  cases hm with
  | ok h hp => exact hk _ _ _ _ h hp
  | returned h hp => exact .some (.returned h (hpost _ _ hp))
  | fault e => exact .some (.fault e)

theorem landing {x : Monkey.Eval Monkey.Value} {y : Eval Value}
    (h : Tracks x s y f Represents Post) :
    Tracks (Monkey.Eval.landing x) s (Eval.landing y) f Represents Post := by
  unfold Tracks
  rw [Monkey.Eval.runIn_landing, Eval.runIn_landing]
  refine rel_map h fun p q _ hm => ?_
  cases hm with
  | ok h hp => exact .ok h hp
  | returned h hp => exact .ok h hp
  | fault e => exact .fault e

theorem define {name : String} {v : Monkey.Value} {w : Value} (h : Mirrors s.env f)
    (hvw : Represents v w) :
    Tracks (Monkey.Eval.define name v) s (Eval.declare name w) f (fun _ _ => True) Mirrors := by
  unfold Tracks
  rw [Monkey.Eval.runIn_define, Eval.runIn_declare]
  rcases h.define_cases name hvw with ⟨he, hf⟩ | ⟨e', f', he, hf, h'⟩
  · rw [he, hf]
    exact .some (.fault _)
  · rw [he, hf]
    exact .some (.ok trivial h')

end Tracks

/-- The evaluation `y` in the frame `f` tracks `x` in the environment `e`, and both are kept. -/
def Follows (x : Monkey.Eval α) (e : Environment Monkey.Value) (y : Eval β) (f : Frame)
    (Val : α → β → Prop) : Prop :=
  ∀ s, s.env = e → Tracks x s y f Val fun e' g => e' = e ∧ g = f

namespace Follows

variable {x : Monkey.Eval α} {y : Eval β} {e : Environment Monkey.Value} {f : Frame}
  {k : α → Monkey.Eval γ} {l : β → Eval δ} {Val : α → β → Prop} {Val' : γ → δ → Prop}

theorem pure {a : α} {b : β} (h : Val a b) : Follows (Pure.pure a) e (Pure.pure b) f Val :=
  fun _ hs => .pure h ⟨hs, rfl⟩

theorem fail (fault : Fault) : Follows (Monkey.Eval.fail fault) e (Eval.fail fault) f Val :=
  fun _ _ => .fail fault

theorem tooDeep : Follows Monkey.Eval.tooDeep e Eval.tooDeep f Val := fun _ _ => .tooDeep

theorem ofOperator {r : Except Fault Monkey.Value} (h : IsOperatorResult r) :
    Follows (Monkey.Eval.ofExcept r) e (Eval.ofExcept (Value.ofOperator r h)) f Represents := by
  cases r with
  | ok v => exact .pure (.data h)
  | error fault => exact .fail fault

theorem bind (hx : Follows x e y f Val) (hk : ∀ a b, Val a b → Follows (k a) e (l b) f Val') :
    Follows (x >>= k) e (y >>= l) f Val' := by
  intro s hs
  refine (hx s hs).bind ?_ fun _ _ h => h
  rintro a t b g hab ⟨ht, rfl⟩
  exact hk a b hab t ht

theorem lookup (h : Flattens e f.bindings) (name : String) :
    Follows (Monkey.Eval.lookup name) e (Eval.lookup name) f Represents := by
  rintro s rfl
  unfold Tracks
  rw [Monkey.Eval.runIn_lookup, Environment.get, Eval.runIn_lookup]
  rcases h.get? name with ⟨hv, hw⟩ | ⟨v, w, hv, hw, hvw⟩
  · rw [hv, hw]
    exact .some (.fault _)
  · rw [hv, hw]
    exact .some (.ok hvw ⟨rfl, rfl⟩)

theorem makeFunction (h : Flattens e f.bindings) (params : List String) (body : Block) :
    Follows (Monkey.Eval.makeFunction params body) e (Eval.makeFunction params body) f
      Represents := by
  rintro s rfl
  exact .some (.ok (.function h.binds h.values) ⟨rfl, rfl⟩)

/--
An evaluation that keeps the environment and runs `x` elsewhere is followed on a copy of the map
that `x` is tracked in.
-/
theorem onCopy {z : Monkey.Eval α} {m : Scope Value}
    {Post : Environment Monkey.Value → Frame → Prop} (hz : Monkey.Eval.Frames z)
    (h : ∀ s, s.env = e → ∃ (s₀ : Session) (leave : Session → Session),
      z.runIn s = (x.runIn s₀).map (fun p => (p.1, leave p.2)) ∧
        Tracks x s₀ y (.start m) Val Post) :
    Follows z e (Eval.onCopy m y) f Val := by
  rintro s rfl
  obtain ⟨s₀, leave, hrun, hx⟩ := h s rfl
  unfold Tracks
  rw [hrun, Eval.runIn_onCopy]
  refine rel_map hx fun p q hp hm => ?_
  have henv : (leave p.2).env = s.env := hz s p.1 _ (by rw [hrun, hp]; rfl)
  cases hm with
  | ok h _ => exact .ok h ⟨henv, rfl⟩
  | returned h _ => exact .returned h ⟨henv, rfl⟩
  | fault fault => exact .fault fault

theorem inScope {Post : Environment Monkey.Value → Frame → Prop}
    (hx : Monkey.Eval.FramesOuter x)
    (h : ∀ s, s.env = e.enter → Tracks x s y (.start f.bindings) Val Post) :
    Follows (Monkey.Eval.inScope x) e (Eval.onCopy f.bindings y) f Val :=
  .onCopy (.inScope hx) fun s hs =>
    ⟨{ s with env := s.env.enter }, fun t => { t with env := t.env.exit },
      Monkey.Eval.runIn_inScope x s, h _ (congrArg Environment.enter hs)⟩

theorem within {Post : Environment Monkey.Value → Frame → Prop} {c : Environment Monkey.Value}
    {m : Scope Value} (h : ∀ s, s.env = c → Tracks x s y (.start m) Val Post) :
    Follows (Monkey.Eval.within c x) e (Eval.onCopy m y) f Val :=
  .onCopy (.within c x) fun s _ =>
    ⟨{ s with env := c }, fun t => { t with env := s.env }, Monkey.Eval.runIn_within c x s,
      h _ rfl⟩

end Follows

/-- What tracking means for each rule when `n` nested rules may start. -/
structure TracksAt (n : Nat) : Prop where
  expr {e : Environment Monkey.Value} {f : Frame} (x : Expr) : Flattens e f.bindings →
    Follows (Monkey.Eval.expr n x) e (Eval.expr n x) f Represents
  exprs {e : Environment Monkey.Value} {f : Frame} (xs : List Expr) : Flattens e f.bindings →
    Follows (Monkey.Eval.exprs n xs) e (Eval.exprs n xs) f (List.Forall₂ Represents)
  stmt {s : Session} {f : Frame} (st : Stmt) : Mirrors s.env f →
    Tracks (Monkey.Eval.stmt n st) s (Eval.stmt n st) f Represents Mirrors
  stmts {s : Session} {f : Frame} {v : Monkey.Value} {w : Value} (ss : List Stmt) :
    Represents v w → Mirrors s.env f →
    Tracks (Monkey.Eval.stmts n v ss) s (Eval.stmts n w ss) f Represents Mirrors
  block {e : Environment Monkey.Value} {f : Frame} (b : Block) : Flattens e f.bindings →
    Follows (Monkey.Eval.block n b) e (Eval.block n b) f Represents
  call {e c : Environment Monkey.Value} {f : Frame} {m : Scope Value} {vs : List Monkey.Value}
    {ws : List Value} (params : List String) (body : Block) : Flattens c m →
    List.Forall₂ Represents vs ws →
    Follows (Monkey.Eval.call n params body c vs) e (Eval.call n params body m ws) f Represents

variable {n : Nat} {e : Environment Monkey.Value} {f : Frame} {s : Session}

theorem tracks_expr_succ (ih : TracksAt n) (x : Expr) (h : Flattens e f.bindings) :
    Follows (Monkey.Eval.expr (n + 1) x) e (Eval.expr (n + 1) x) f Represents := by
  cases x with
  | ident name => exact .lookup h name
  | int n => exact .pure (.data _)
  | str s => exact .pure (.data _)
  | bool b => exact .pure (.data _)
  | unary op operand =>
    apply (ih.expr operand h).bind
    intro v w hvw
    rw [op.apply_congr hvw.alike]
    exact .ofOperator _
  | binary op left right =>
    apply (ih.expr left h).bind
    intro v w hvw
    apply (ih.expr right h).bind
    intro v' w' hvw'
    rw [op.apply_congr hvw.alike hvw'.alike]
    exact .ofOperator _
  | cond condition consequence alternative =>
    apply (ih.expr condition h).bind
    intro v w hvw
    cases hvw with
    | data _ =>
      cases v with
      | bool b =>
        cases b with
        | true => exact ih.block consequence h
        | false =>
          cases alternative with
          | none => exact .pure (.data _)
          | some alternative => exact ih.block alternative h
      | _ => exact .fail _
    | function => exact .fail _
  | fn params body => exact .makeFunction h params body
  | call callee args =>
    apply (ih.expr callee h).bind
    intro v w hvw
    cases hvw with
    | data hv =>
      cases v with
      | function id params body captured => exact absurd rfl hv
      | _ => exact .fail _
    | function hbinds hvalues =>
      apply (ih.exprs args h).bind
      intro vs ws hvs
      exact ih.call _ _ ⟨hbinds, hvalues⟩ hvs

theorem tracks_exprs_succ (ih : TracksAt n) (xs : List Expr) (h : Flattens e f.bindings) :
    Follows (Monkey.Eval.exprs (n + 1) xs) e (Eval.exprs (n + 1) xs) f
      (List.Forall₂ Represents) := by
  cases xs with
  | nil => exact .pure .nil
  | cons x xs =>
    apply (ih.expr x h).bind
    intro v w hvw
    exact (ih.exprs xs h).bind fun vs ws hvs => .pure (.cons hvw hvs)

theorem tracks_stmt_succ (ih : TracksAt n) (st : Stmt) (h : Mirrors s.env f) :
    Tracks (Monkey.Eval.stmt (n + 1) st) s (Eval.stmt (n + 1) st) f Represents Mirrors := by
  -- The value is evaluated in the environment and the frame that the statement finds.
  have hkeep (e' : Environment Monkey.Value) (g : Frame) (hg : e' = s.env ∧ g = f) :
      Mirrors e' g := by
    rw [hg.1, hg.2]
    exact h
  cases st with
  | bind name value =>
    refine (ih.expr value h.flattens s rfl).bind ?_ hkeep
    rintro v t w g hvw hg
    exact (Tracks.define (hkeep _ _ hg) hvw).bind (fun _ _ _ _ _ h' => .pure hvw h')
      fun _ _ h' => h'
  | ret value =>
    exact (ih.expr value h.flattens s rfl).bind
      (fun v t w g hvw hg => .returning hvw (hkeep _ _ hg)) hkeep
  | expr value => exact (ih.expr value h.flattens s rfl).imp hkeep

theorem tracks_stmts_succ (ih : TracksAt n) {v : Monkey.Value} {w : Value} (ss : List Stmt)
    (hvw : Represents v w) (h : Mirrors s.env f) :
    Tracks (Monkey.Eval.stmts (n + 1) v ss) s (Eval.stmts (n + 1) w ss) f Represents Mirrors := by
  cases ss with
  | nil => exact .pure hvw h
  | cons st ss =>
    exact (ih.stmt st h).bind (fun v t w g hvw hg => ih.stmts ss hvw hg) fun _ _ h' => h'

theorem tracks_block_succ (ih : TracksAt n) (b : Block) (h : Flattens e f.bindings) :
    Follows (Monkey.Eval.block (n + 1) b) e (Eval.block (n + 1) b) f Represents := by
  -- In the frame `f`, the map that the block reads is the one of `f`.
  change Follows (Monkey.Eval.inScope (Monkey.Eval.stmts n .null b)) e
    (Eval.onCopy f.bindings (Eval.stmts n .null b)) f Represents
  apply Follows.inScope ((Monkey.Eval.framesAt n).stmts .null b)
  rintro s hs
  exact ih.stmts b (.data _) (hs ▸ h.enter)

theorem tracks_call_succ (ih : TracksAt n) {c : Environment Monkey.Value} {m : Scope Value}
    {vs : List Monkey.Value} {ws : List Value} (params : List String) (body : Block)
    (h : Flattens c m) (hvs : List.Forall₂ Represents vs ws) :
    Follows (Monkey.Eval.call (n + 1) params body c vs) e (Eval.call (n + 1) params body m ws) f
      Represents := by
  unfold Monkey.Eval.call Eval.call
  rw [← hvs.length_eq]
  split
  · next hlen =>
    rcases h.enter.defineAll_cases hvs hlen with ⟨name, he, hf⟩ | ⟨e', f', he, hf, h'⟩
    · rw [he, hf]
      exact .fail _
    · rw [he, hf]
      exact .within fun s hs => (ih.block (f := .start f'.bindings) body h'.flattens s hs).landing
  · exact .fail _

theorem tracksAt (n : Nat) : TracksAt n := by
  induction n with
  | zero =>
    exact ⟨fun _ _ => .tooDeep, fun _ _ => .tooDeep, fun _ _ => .tooDeep, fun _ _ _ => .tooDeep,
      fun _ _ => .tooDeep, fun _ _ _ _ => .tooDeep⟩
  | succ n ih =>
    exact ⟨tracks_expr_succ ih, tracks_exprs_succ ih, tracks_stmt_succ ih, tracks_stmts_succ ih,
      tracks_block_succ ih, tracks_call_succ ih⟩

end Monkey.Lexical

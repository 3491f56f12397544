import Monkey.Proofs.Scope.WellScoped
import Monkey.Session

/-! # What an evaluation leaves alone

An expression, a block and a call leave the environment exactly as they found
it, however they end. A statement changes it in one case only, when it binds a
name, and then in the innermost scope; so a sequence of statements leaves every
enclosing scope alone.
-/

namespace Monkey.Eval

variable {α β : Type}

/-- However `x` ends in the session `s`, its outcome and the session after it satisfy `Q`. -/
def Ensures (x : Eval α) (s : Session) (Q : Except Abrupt α → Session → Prop) : Prop :=
  ∀ r t, x.runIn s = some (r, t) → Q r t

namespace Ensures

variable {x : Eval α} {f : α → Eval β} {s : Session} {P Q : Except Abrupt α → Session → Prop}

theorem imp (h : Ensures x s P) (hQ : ∀ r t, P r t → Q r t) : Ensures x s Q :=
  fun r t hr => hQ r t (h r t hr)

theorem and (hP : Ensures x s P) (hQ : Ensures x s Q) : Ensures x s fun r t => P r t ∧ Q r t :=
  fun r t hr => ⟨hP r t hr, hQ r t hr⟩

theorem tooDeep : Ensures (tooDeep : Eval α) s Q := by
  intro r t hr
  simp at hr

theorem pure {a : α} (h : Q (.ok a) s) : Ensures (Pure.pure a) s Q := by
  rintro r t hr
  cases hr
  exact h

theorem fail {e : Fault} (h : Q (.error (.fault e)) s) : Ensures (fail e) s Q := by
  rintro r t hr
  cases hr
  exact h

theorem returning {v : Value} (h : Q (.error (.returned v)) s) : Ensures (returning v) s Q := by
  rintro r t hr
  cases hr
  exact h

theorem ofExcept {r : Except Fault α} (h : Q (r.mapError .fault) s) :
    Ensures (ofExcept r) s Q := by
  intro r' t hr
  rw [runIn_ofExcept] at hr
  cases hr
  exact h

theorem bind {R : Except Abrupt β → Session → Prop} (hx : Ensures x s P)
    (hok : ∀ a t, P (.ok a) t → Ensures (f a) t R)
    (herr : ∀ e t, P (.error e) t → R (.error e) t) : Ensures (x >>= f) s R := by
  intro r u hr
  rw [runIn_bind] at hr
  obtain ⟨⟨r', t⟩, hx', hr⟩ := Option.bind_eq_some_iff.1 hr
  cases r' with
  | ok a => exact hok a t (hx _ _ hx') r u hr
  | error e =>
    cases hr
    exact herr e _ (hx _ _ hx')

theorem define {name : String} {v : Value} {Q : Except Abrupt Unit → Session → Prop}
    (hok : ∀ env, s.env.define name v = .ok env → Q (.ok ()) { s with env })
    (herr : Q (.error (.fault (.duplicate name))) s) : Ensures (define name v) s Q := by
  intro r t hr
  rw [runIn_define] at hr
  split at hr
  · next env hd =>
    cases hr
    exact hok env hd
  · next fault hd =>
    cases hr
    rw [Environment.define_eq_error hd]
    exact herr

theorem inScope (h : Ensures x { s with env := s.env.enter } fun r t =>
    Q r { t with env := t.env.exit }) : Ensures (inScope x) s Q := by
  intro r u hr
  rw [runIn_inScope] at hr
  obtain ⟨⟨r', t⟩, hx, hr⟩ := Option.map_eq_some_iff.1 hr
  cases hr
  exact h _ _ hx

theorem within {env : Environment Value} (h : Ensures x { s with env } fun r t =>
    Q r { t with env := s.env }) : Ensures (within env x) s Q := by
  intro r u hr
  rw [runIn_within] at hr
  obtain ⟨⟨r', t⟩, hx, hr⟩ := Option.map_eq_some_iff.1 hr
  cases hr
  exact h _ _ hx

theorem committing
    (hend : Ensures x { s with env := s.env.enter } fun r t => Q r { t with env := t.env.commit })
    (hfault : Ensures x { s with env := s.env.enter } fun r t =>
      ∀ e, r = .error (.fault e) → Q (.error (.fault e)) t) : Ensures (committing x) s Q := by
  intro r u hr
  rw [runIn_committing] at hr
  obtain ⟨⟨r', t⟩, hx, hr⟩ := Option.map_eq_some_iff.1 hr
  rcases r' with (v | e) | v <;> cases hr
  · exact hend _ _ hx
  · exact hfault _ _ hx e rfl
  · exact hend _ _ hx

theorem landing {x : Eval Value} {P Q : Outcome → Session → Prop} (h : Ensures x s P)
    (hret : ∀ v t, P (.error (.returned v)) t → Q (.ok v) t)
    (hok : ∀ v t, P (.ok v) t → Q (.ok v) t)
    (hfault : ∀ e t, P (.error (.fault e)) t → Q (.error (.fault e)) t) :
    Ensures (landing x) s Q := by
  intro r u hr
  rw [runIn_landing] at hr
  obtain ⟨⟨r', t⟩, hx, hr⟩ := Option.map_eq_some_iff.1 hr
  rcases r' with (v | e) | v <;> cases hr
  · exact hret v _ (h _ _ hx)
  · exact hfault e _ (h _ _ hx)
  · exact hok v _ (h _ _ hx)

end Ensures

/-- An evaluation that leaves the environment as it was. -/
def Frames (x : Eval α) : Prop :=
  ∀ s, Ensures x s fun _ t => t.env = s.env

/-- An evaluation that leaves every scope but the innermost one as it was. -/
def FramesOuter (x : Eval α) : Prop :=
  ∀ s, Ensures x s fun _ t => t.env.outer = s.env.outer

namespace Frames

variable {x : Eval α} {f : α → Eval β}

theorem tooDeep : Frames (tooDeep : Eval α) := fun _ => .tooDeep

theorem pure (a : α) : Frames (Pure.pure a : Eval α) := fun _ => .pure rfl

theorem fail (e : Fault) : Frames (fail e : Eval α) := fun _ => .fail rfl

theorem ofExcept (r : Except Fault α) : Frames (ofExcept r) := fun _ => .ofExcept rfl

theorem bind (hx : Frames x) (hf : ∀ a, Frames (f a)) : Frames (x >>= f) :=
  fun s => (hx s).bind (fun a t ht => (hf a t).imp fun _ _ hu => hu.trans ht) fun _ _ ht => ht

theorem lookup (name : String) : Frames (lookup name) := by
  intro s r t hr
  rw [runIn_lookup] at hr
  cases hr
  rfl

theorem makeFunction (params : List String) (body : Block) : Frames (makeFunction params body) := by
  intro s r t hr
  rw [runIn_makeFunction] at hr
  cases hr
  rfl

theorem inScope (h : FramesOuter x) : Frames (inScope x) := by
  refine fun s => .inScope ((h _).imp fun _ t ht => ?_)
  -- The scopes around the one that was entered are those of the environment before.
  have hout : t.env.outer = s.env.scopes := ht
  simp [Environment.exit, hout, Environment.scopes]

theorem within (env : Environment Value) (x : Eval α) : Frames (within env x) :=
  fun _ => .within fun _ _ _ => rfl

theorem framesOuter (h : Frames x) : FramesOuter x :=
  fun s => (h s).imp fun _ _ ht => by rw [ht]

end Frames

namespace FramesOuter

variable {x : Eval α} {f : α → Eval β}

theorem bind (hx : FramesOuter x) (hf : ∀ a, FramesOuter (f a)) : FramesOuter (x >>= f) :=
  fun s => (hx s).bind (fun a t ht => (hf a t).imp fun _ _ hu => hu.trans ht) fun _ _ ht => ht

end FramesOuter

/--
What a statement does to the environment: it binds its name to its own value, or it gives no
value to a name and leaves the environment as it was.
-/
def StmtEffect (st : Stmt) (e : Environment Value) (r : Outcome) (e' : Environment Value) : Prop :=
  (e' = e ∧ ∀ v, r = .ok v → st.name? = none) ∨
    ∃ name v, st.name? = some name ∧ r = .ok v ∧ e.define name v = .ok e'

/-- What the rules of evaluation leave alone when `n` nested rules may start. -/
structure FramesAt (n : Nat) : Prop where
  expr (e : Expr) : Frames (expr n e)
  exprs (es : List Expr) : Frames (exprs n es)
  stmt (st : Stmt) (s : Session) : Ensures (stmt n st) s fun r t => StmtEffect st s.env r t.env
  stmts (v : Value) (ss : List Stmt) : FramesOuter (stmts n v ss)
  block (b : Block) : Frames (block n b)
  call (params : List String) (body : Block) (captured : Environment Value) (args : List Value) :
    Frames (call n params body captured args)

theorem frames_expr_succ {n : Nat} (ih : FramesAt n) (e : Expr) : Frames (expr (n + 1) e) := by
  cases e with
  | ident name => exact .lookup name
  | int n => exact .pure _
  | str s => exact .pure _
  | bool b => exact .pure _
  | unary op operand => exact (ih.expr operand).bind fun v => .ofExcept _
  | binary op left right =>
    exact (ih.expr left).bind fun v => (ih.expr right).bind fun w => .ofExcept _
  | cond condition consequence alternative =>
    apply (ih.expr condition).bind
    intro v
    split
    · exact ih.block _
    · exact ih.block _
    · exact .pure _
    · exact .fail _
  | fn params body => exact .makeFunction params body
  | call callee args =>
    apply (ih.expr callee).bind
    intro v
    split
    · exact (ih.exprs args).bind fun vs => ih.call _ _ _ _
    · exact .fail _

theorem frames_exprs_succ {n : Nat} (ih : FramesAt n) (es : List Expr) :
    Frames (exprs (n + 1) es) := by
  cases es with
  | nil => exact .pure _
  | cons e es => exact (ih.expr e).bind fun v => (ih.exprs es).bind fun vs => .pure _

theorem frames_stmt_succ {n : Nat} (ih : FramesAt n) (st : Stmt) (s : Session) :
    Ensures (stmt (n + 1) st) s fun r t => StmtEffect st s.env r t.env := by
  cases st with
  | bind name value =>
    refine (ih.expr value s).bind ?_ fun _ _ ht => .inl ⟨ht, nofun⟩
    intro v t ht
    have hdefine : Ensures (define name v) t fun r u =>
        (r = .ok () ∧ t.env.define name v = .ok u.env) ∨
          (r = .error (.fault (.duplicate name)) ∧ u = t) :=
      .define (fun env hd => .inl ⟨rfl, hd⟩) (.inr ⟨rfl, rfl⟩)
    rw [ht] at hdefine
    refine hdefine.bind ?_ ?_
    · rintro ⟨⟩ u (⟨-, hd⟩ | ⟨h, -⟩)
      · exact .pure (.inr ⟨name, v, rfl, rfl, hd⟩)
      · cases h
    · rintro e u (⟨h, -⟩ | ⟨-, rfl⟩)
      · cases h
      · exact .inl ⟨ht, nofun⟩
  | ret value =>
    exact (ih.expr value s).bind (fun _ _ ht => .returning (.inl ⟨ht, nofun⟩))
      fun _ _ ht => .inl ⟨ht, nofun⟩
  | expr value => exact (ih.expr value s).imp fun _ _ ht => .inl ⟨ht, fun _ _ => rfl⟩

theorem framesOuter_stmts_succ {n : Nat} (ih : FramesAt n) (v : Value) (ss : List Stmt) :
    FramesOuter (stmts (n + 1) v ss) := by
  cases ss with
  | nil => exact (Frames.pure v).framesOuter
  | cons st ss =>
    refine FramesOuter.bind (fun s => (ih.stmt st s).imp ?_) fun w => ih.stmts w ss
    rintro r t (⟨ht, -⟩ | ⟨name, v, -, -, hd⟩)
    · rw [ht]
    · exact Environment.outer_define hd

theorem frames_call_succ (n : Nat) (params : List String) (body : Block)
    (captured : Environment Value) (args : List Value) :
    Frames (call (n + 1) params body captured args) := by
  unfold call
  split
  · exact (Frames.ofExcept _).bind fun env => .within env _
  · exact .fail _

/-- At every depth, expressions, blocks and calls leave the environment as it was. -/
theorem framesAt (n : Nat) : FramesAt n := by
  induction n with
  | zero =>
    exact ⟨fun _ => .tooDeep, fun _ => .tooDeep, fun _ _ => .tooDeep,
      fun _ _ => Frames.tooDeep.framesOuter, fun _ => .tooDeep, fun _ _ _ _ => .tooDeep⟩
  | succ n ih =>
    exact ⟨frames_expr_succ ih, frames_exprs_succ ih, frames_stmt_succ ih,
      framesOuter_stmts_succ ih, fun b => .inScope (ih.stmts .null b), frames_call_succ n⟩

/-- Statements bind no names of the innermost scope but their own. -/
theorem binds_of_stmts (n : Nat) (v : Value) (ss : List Stmt) (s : Session) :
    Ensures (stmts n v ss) s fun _ t => ∀ x, Scope.binds t.env.current x = true →
      Scope.binds s.env.current x = true ∨ x ∈ Block.names ss := by
  induction ss generalizing n v s with
  | nil =>
    cases n with
    | zero => exact .tooDeep
    | succ n => exact .pure fun _ hx => .inl hx
  | cons st ss ih =>
    cases n with
    | zero => exact .tooDeep
    | succ n =>
      have hstep : Ensures (stmt n st) s fun _ t => ∀ x, Scope.binds t.env.current x = true →
          Scope.binds s.env.current x = true ∨ st.name? = some x := by
        refine ((framesAt n).stmt st s).imp ?_
        rintro r t (⟨ht, -⟩ | ⟨name, w, hname, -, hd⟩) x hx
        · exact .inl (ht ▸ hx)
        · obtain ⟨-, he⟩ := Environment.define_eq_ok_iff.1 hd
          rw [he, Scope.binds, Scope.get?_cons] at hx
          split at hx
          · next heq => exact .inr (heq ▸ hname)
          · exact .inl hx
      have hnames (x : String) : x ∈ Block.names (st :: ss) ↔
          st.name? = some x ∨ x ∈ Block.names ss := by
        simp [Block.names]
      refine hstep.bind ?_ ?_
      · intro w t ht
        refine (ih n w t).imp fun _ u hu x hx => ?_
        rcases hu x hx with hx | hx
        · rcases ht x hx with hx | hx
          · exact .inl hx
          · exact .inr ((hnames x).2 (.inl hx))
        · exact .inr ((hnames x).2 (.inr hx))
      · intro e t ht x hx
        rcases ht x hx with hx | hx
        · exact .inl hx
        · exact .inr ((hnames x).2 (.inl hx))

end Monkey.Eval

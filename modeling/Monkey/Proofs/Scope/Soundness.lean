import Monkey.Proofs.Evaluation.Invariant
import Monkey.Proofs.Scope.WellScoped
import Monkey.Proofs.Session.Run

/-! # Static scoping is sound

A value is closed if every function in it, also in the environments its
functions captured, binds all names that its body looks up. Evaluating a well
scoped part of a program over closed values gives closed values and never meets
an unbound name, and programs hand on closed environments from one to the next.
-/

namespace Monkey

/-- Values whose functions find every name that their bodies look up. -/
inductive Value.Closed : Value → Prop
  | null : Closed .null
  | bool (b : Bool) : Closed (.bool b)
  | int (n : Integer) : Closed (.int n)
  | str (s : String) : Closed (.str s)
  | function {id : Nat} {params : List String} {body : List Stmt} {captured : Environment Value} :
      Stmt.AllScoped (captured.names ∪ {x | x ∈ params}) body →
      (∀ x v, captured.get? x = some v → Closed v) → Closed (.function id params body captured)

/-- Whether every value that an environment shows is closed. -/
def Environment.Closed (e : Environment Value) : Prop :=
  ∀ x v, e.get? x = some v → v.Closed

namespace Environment.Closed

variable {e e' : Environment Value}

theorem empty : Closed .empty := Every.empty

theorem enter (h : e.Closed) : e.enter.Closed := Every.enter h

theorem commit (h : e.Closed) : e.commit.Closed := Every.commit h

theorem define {name : String} {v : Value} (h : e.Closed) (hv : v.Closed)
    (he : e.define name v = .ok e') : e'.Closed :=
  Every.define h hv he

theorem defineAll {bs : List (String × Value)} (h : e.Closed) (hbs : ∀ b ∈ bs, b.2.Closed)
    (he : e.defineAll bs = .ok e') : e'.Closed :=
  Every.defineAll h hbs he

end Environment.Closed

theorem Value.IsData.closed {v : Value} (h : v.IsData) : v.Closed := by
  cases v with
  | null => exact .null
  | bool b => exact .bool b
  | int n => exact .int n
  | str s => exact .str s
  | function id params body captured => exact absurd rfl h

theorem Fault.OfOperator.ne_undefined {e : Fault} (h : e.OfOperator) (name : String) :
    e ≠ .undefined name := by
  rintro rfl
  exact h

namespace Eval

variable {α β : Type} {env : Environment Value}

/-- Whether an outcome is no unbound name, and hands on closed values only. -/
def SoundOutcome (Good : α → Prop) : Except Abrupt α → Prop
  | .ok a => Good a
  | .error (.returned v) => v.Closed
  | .error (.fault e) => ∀ name, e ≠ .undefined name

/-- Every outcome of an evaluation in the environment `env` is sound. -/
def Sound (x : Eval α) (env : Environment Value) (Good : α → Prop) : Prop :=
  ∀ s, s.env = env → Ensures x s fun r _ => SoundOutcome Good r

namespace Sound

variable {x : Eval α} {f : α → Eval β} {Good : α → Prop} {Good' : β → Prop}

theorem tooDeep : Sound (tooDeep : Eval α) env Good := Upholds.tooDeep

theorem pure {a : α} (h : Good a) : Sound (Pure.pure a) env Good := Upholds.pure h

theorem fail {e : Fault} (h : ∀ name, e ≠ .undefined name) :
    Sound (fail e : Eval α) env Good :=
  Upholds.fail h

theorem bind (hframe : Frames x) (hx : Sound x env Good)
    (hf : ∀ a, Good a → Sound (f a) env Good') : Sound (x >>= f) env Good' :=
  Upholds.bind hframe hx hf

theorem ofOperator {r : Except Fault Value} (h : IsOperatorResult r) :
    Sound (ofExcept r) env Value.Closed :=
  Upholds.ofOperator (fun _ => Value.IsData.closed) (fun _ => Fault.OfOperator.ne_undefined) h

theorem lookup (henv : env.Closed) {name : String} (h : name ∈ env.names) :
    Sound (lookup name) env Value.Closed := by
  rintro s rfl r t hr
  obtain ⟨v, hv⟩ := Environment.mem_names_iff.1 h
  rw [runIn_lookup, Environment.get, hv] at hr
  cases hr
  exact henv name v hv

theorem makeFunction (henv : env.Closed) {params : List String} {body : Block}
    (h : Stmt.AllScoped (env.names ∪ {x | x ∈ params}) body) :
    Sound (makeFunction params body) env Value.Closed :=
  Upholds.makeFunction fun _ => .function h henv

end Sound

/-- What sound evaluation means for each rule when `n` nested rules may start. -/
structure SoundAt (n : Nat) : Prop where
  expr {env : Environment Value} (e : Expr) : env.Closed → e.Scoped env.names →
    Sound (expr n e) env Value.Closed
  exprs {env : Environment Value} (es : List Expr) : env.Closed → Expr.AllScoped env.names es →
    Sound (exprs n es) env fun vs => vs.length = es.length ∧ ∀ v ∈ vs, v.Closed
  stmt {s : Session} (st : Stmt) : s.env.Closed → st.Scoped s.env.names →
    Ensures (stmt n st) s fun r t => SoundOutcome Value.Closed r ∧ t.env.Closed ∧
      ∀ v, r = .ok v → t.env.names = s.env.names ∪ {x | x ∈ st.name?}
  stmts {s : Session} (v : Value) (ss : List Stmt) : v.Closed → s.env.Closed →
    Stmt.AllScoped s.env.names ss →
    Ensures (stmts n v ss) s fun r t => SoundOutcome Value.Closed r ∧ t.env.Closed
  block {env : Environment Value} (b : Block) : env.Closed → Stmt.AllScoped env.names b →
    Sound (block n b) env Value.Closed
  call {env : Environment Value} (params : List String) (body : Block)
    (captured : Environment Value) (args : List Value) : captured.Closed →
    Stmt.AllScoped (captured.names ∪ {x | x ∈ params}) body → (∀ v ∈ args, v.Closed) →
    Sound (call n params body captured args) env Value.Closed

theorem sound_expr_succ {n : Nat} (ih : SoundAt n) (e : Expr) (henv : env.Closed)
    (he : e.Scoped env.names) : Sound (expr (n + 1) e) env Value.Closed := by
  have hframe := framesAt n
  cases e with
  | ident name => exact .lookup henv he
  | int n => exact .pure (.int n)
  | str s => exact .pure (.str s)
  | bool b => exact .pure (.bool b)
  | unary op operand =>
    exact (ih.expr operand henv he).bind (hframe.expr operand) fun v _ =>
      .ofOperator (op.apply_isOperatorResult v)
  | binary op left right =>
    refine (ih.expr left henv he.1).bind (hframe.expr left) fun v _ => ?_
    refine (ih.expr right henv he.2).bind (hframe.expr right) fun w _ => ?_
    exact .ofOperator (op.apply_isOperatorResult v w)
  | cond condition consequence alternative =>
    obtain ⟨hcond, hcons, halt⟩ := Expr.scoped_cond_iff.1 he
    refine (ih.expr condition henv hcond).bind (hframe.expr condition) fun v _ => ?_
    split
    · exact ih.block _ henv hcons
    · exact ih.block _ henv (halt _ rfl)
    · exact .pure .null
    · exact .fail nofun
  | fn params body => exact .makeFunction henv he
  | call callee args =>
    refine (ih.expr callee henv he.1).bind (hframe.expr callee) fun v hv => ?_
    cases hv with
    | function hbody hcaptured =>
      refine (ih.exprs args henv he.2).bind (hframe.exprs args) fun vs hvs => ?_
      exact ih.call _ _ _ vs hcaptured hbody hvs.2
    | _ => exact .fail nofun

theorem sound_exprs_succ {n : Nat} (ih : SoundAt n) (es : List Expr) (henv : env.Closed)
    (hes : Expr.AllScoped env.names es) :
    Sound (exprs (n + 1) es) env fun vs => vs.length = es.length ∧ ∀ v ∈ vs, v.Closed := by
  have hframe := framesAt n
  cases es with
  | nil => exact .pure ⟨rfl, nofun⟩
  | cons e es =>
    refine (ih.expr e henv hes.1).bind (hframe.expr e) fun v hv => ?_
    refine (ih.exprs es henv hes.2).bind (hframe.exprs es) fun vs hvs => .pure ?_
    refine ⟨by simp [hvs.1], fun w hw => ?_⟩
    rcases List.mem_cons.1 hw with rfl | hw
    · exact hv
    · exact hvs.2 w hw

theorem sound_stmt_succ {n : Nat} (ih : SoundAt n) {s : Session} (st : Stmt)
    (henv : s.env.Closed) (hst : st.Scoped s.env.names) :
    Ensures (stmt (n + 1) st) s fun r t => SoundOutcome Value.Closed r ∧ t.env.Closed ∧
      ∀ v, r = .ok v → t.env.names = s.env.names ∪ {x | x ∈ st.name?} := by
  have hsound : Ensures (stmt (n + 1) st) s fun r _ => SoundOutcome Value.Closed r := by
    cases st with
    | bind name value =>
      refine (ih.expr value henv hst s rfl).bind ?_ fun _ _ h => h
      intro v t hv
      have hdefine : Ensures (define name v) t fun r _ =>
          r = .ok () ∨ r = .error (.fault (.duplicate name)) :=
        .define (fun _ _ => .inl rfl) (.inr rfl)
      refine hdefine.bind (fun _ _ _ => .pure hv) ?_
      rintro e u (h | h) <;> cases h
      exact nofun
    | ret value =>
      exact (ih.expr value henv hst s rfl).bind (fun _ _ hv => .returning hv) fun _ _ h => h
    | expr value => exact ih.expr value henv hst s rfl
  refine (hsound.and ((framesAt (n + 1)).stmt st s)).imp ?_
  rintro r t ⟨hr, ⟨ht, hnone⟩ | ⟨name, v, hname, rfl, hd⟩⟩
  · exact ⟨hr, ht ▸ henv, fun v hv => by simp [ht, hnone v hv]⟩
  · refine ⟨hr, henv.define hr hd, fun _ _ => ?_⟩
    rw [Environment.names_define hd, hname]
    ext x
    simp [eq_comm]

theorem sound_stmts_succ {n : Nat} (ih : SoundAt n) {s : Session} (v : Value) (ss : List Stmt)
    (hv : v.Closed) (henv : s.env.Closed) (hss : Stmt.AllScoped s.env.names ss) :
    Ensures (stmts (n + 1) v ss) s fun r t => SoundOutcome Value.Closed r ∧ t.env.Closed := by
  cases ss with
  | nil => exact .pure ⟨hv, henv⟩
  | cons st ss =>
    refine (ih.stmt st henv hss.1).bind ?_ ?_
    · rintro w t ⟨hw, ht, hnames⟩
      exact ih.stmts w ss hw ht (hnames w rfl ▸ hss.2)
    · rintro e t ⟨he, ht, -⟩
      exact ⟨he, ht⟩

theorem sound_block_succ {n : Nat} (ih : SoundAt n) (b : Block) (henv : env.Closed)
    (hb : Stmt.AllScoped env.names b) : Sound (block (n + 1) b) env Value.Closed := by
  rintro s rfl
  have hstmts : Ensures (stmts n .null b) { s with env := s.env.enter } fun r t =>
      SoundOutcome Value.Closed r ∧ t.env.Closed :=
    ih.stmts .null b .null henv.enter (by rwa [Environment.names_enter])
  exact .inScope (hstmts.imp fun _ _ h => h.1)

theorem Sound.landing {x : Eval Value} (h : Sound x env Value.Closed) :
    Sound (landing x) env Value.Closed :=
  Upholds.landing h

theorem Sound.within {α : Type} {x : Eval α} {Good : α → Prop} {env' : Environment Value}
    (h : Sound x env Good) : Sound (within env x) env' Good :=
  Upholds.within h

theorem sound_call_succ {n : Nat} (ih : SoundAt n) (params : List String) (body : Block)
    (captured : Environment Value) (args : List Value) (hcaptured : captured.Closed)
    (hbody : Stmt.AllScoped (captured.names ∪ {x | x ∈ params}) body)
    (hargs : ∀ v ∈ args, v.Closed) :
    Sound (call (n + 1) params body captured args) env Value.Closed := by
  unfold call
  split
  · next hlen =>
    have hparams : (params.zip args).map Prod.fst = params :=
      List.map_fst_zip (Nat.le_of_eq hlen)
    have hpairs : ∀ b ∈ params.zip args, b.2.Closed := fun b hb =>
      hargs b.2 (List.of_mem_zip hb).2
    cases hd : captured.enter.defineAll (params.zip args) with
    | error fault =>
      obtain ⟨name, rfl⟩ := Environment.defineAll_eq_error hd
      apply Sound.fail
      intro x hx
      cases hx
    | ok inner =>
      have hnames := Environment.names_defineAll hd
      rw [hparams, Environment.names_enter] at hnames
      have hinner := hcaptured.enter.defineAll hpairs hd
      exact .within (.landing (ih.block body hinner (hnames ▸ hbody)))
  · apply Sound.fail
    intro x hx
    cases hx

theorem soundAt (n : Nat) : SoundAt n := by
  induction n with
  | zero =>
    exact ⟨fun _ _ _ => .tooDeep, fun _ _ _ => .tooDeep, fun _ _ _ => .tooDeep,
      fun _ _ _ _ _ => .tooDeep, fun _ _ _ => .tooDeep, fun _ _ _ _ _ _ _ => .tooDeep⟩
  | succ n ih =>
    exact ⟨sound_expr_succ ih, sound_exprs_succ ih, sound_stmt_succ ih, sound_stmts_succ ih,
      sound_block_succ ih, sound_call_succ ih⟩

/-- A well scoped program over closed values ends soundly, and leaves closed values behind. -/
theorem sound_program (n : Nat) {s : Session} {p : Program} (henv : s.env.Closed)
    (hp : Stmt.AllScoped s.env.names p) :
    Ensures (program n p) s fun r t => SoundOutcome Value.Closed r ∧
      ((∀ e, r ≠ .error (.fault e)) → t.env.Closed) := by
  have hstmts : Ensures (stmts n .null p) { s with env := s.env.enter } fun r t =>
      SoundOutcome Value.Closed r ∧ t.env.Closed :=
    (soundAt n).stmts .null p .null henv.enter (by rwa [Environment.names_enter])
  refine .committing (hstmts.imp ?_) (hstmts.imp ?_)
  · rintro r t ⟨hr, ht⟩
    exact ⟨hr, fun _ => ht.commit⟩
  · rintro r t ⟨hr, -⟩ e rfl
    exact ⟨hr, fun h => absurd rfl (h e)⟩

end Eval

namespace Session

/-- Executions of programs that are well scoped in the names bound where they start, and resets. -/
def WellScoped (s : Session) : Action → Prop
  | .execute p => Stmt.AllScoped s.env.names p
  | .reset => True
  | _ => False

theorem closed_of_execute {s t : Session} {n : Nat} {p : Program} {r : Except Fault Value}
    (hs : s.env.Closed) (hp : Stmt.AllScoped s.env.names p)
    (hr : s.execute n p = some (r, t)) :
    t.env.Closed ∧ ∀ name, r ≠ .error (.undefined name) := by
  obtain ⟨⟨o, u⟩, hrun, he⟩ := Option.map_eq_some_iff.1 hr
  obtain ⟨hsound, henv⟩ := Eval.sound_program n hs hp o u hrun
  rcases o with (v | e) | v <;> cases he
  · exact ⟨henv nofun, nofun⟩
  · exact ⟨hs, fun name h => hsound name (by cases h; rfl)⟩
  · exact ⟨henv nofun, nofun⟩

/--
No execution in a session meets an unbound name if each program is well scoped in the names that
are bound where it starts.
-/
theorem undefined_not_mem_of_wellScoped {firstId : Nat} {os : List (Option Outcome)}
    {t : Session} (h : Run WellScoped (fresh firstId) os t) (name : String) :
    some (.error (.fault (.undefined name))) ∉ os := by
  have hstep (s : Session) (a : Action) (n : Nat) (o : Option Outcome) (t : Session)
      (hs : s.env.Closed) (ha : s.WellScoped a) (hp : s.perform n a = some (o, t)) :
      t.env.Closed ∧ o ≠ some (.error (.fault (.undefined name))) := by
    cases a with
    | execute p =>
      obtain ⟨⟨r, u⟩, hrun, he⟩ := Option.map_eq_some_iff.1 hp
      cases he
      obtain ⟨henv, hr⟩ := closed_of_execute hs ha hrun
      refine ⟨henv, fun h => ?_⟩
      cases r with
      | ok v => cases h
      | error e => cases h; exact hr name rfl
    | reset =>
      cases hp
      exact ⟨.empty, nofun⟩
    | _ => exact ha.elim
  intro hmem
  exact (h.invariant hstep .empty).2 _ hmem rfl

theorem wellScoped_adder : ∃ os t, Run WellScoped (fresh 0) os t ∧ os.length = 3 ∧
    ∀ name, some (.error (.fault (.undefined name))) ∉ os := by
  let body : Block := [.expr (.fn ["y"] [.expr (.binary .add (.ident "x") (.ident "y"))])]
  let add (v : Expr) : Expr := .call (.call (.ident "add") [.int 2]) [v]
  let adder : Value := .function 0 ["x"] body ⟨[], [[]]⟩
  let bound (nextId : Nat) : Session := ⟨⟨[("add", adder)], []⟩, nextId⟩
  -- The function is bound, then misused beside a binding that is taken back, and then used.
  let bind : Action := .execute [.bind "add" (.fn ["x"] body)]
  let misuse : Action := .execute [.bind "x" (.int 7), .expr (add (.bool true))]
  let use : Action := .execute [.expr (add (.int 3))]
  have hbind : (fresh 0).WellScoped bind := by
    simp [bind, body, WellScoped, Stmt.AllScoped, Stmt.Scoped, Expr.Scoped]
  have hmisuse : (bound 1).WellScoped misuse :=
    ⟨trivial, ⟨⟨.inl rfl, trivial, trivial⟩, trivial, trivial⟩, trivial⟩
  have huse : (bound 2).WellScoped use :=
    ⟨⟨⟨rfl, trivial, trivial⟩, trivial, trivial⟩, trivial⟩
  have hrun : Run WellScoped (fresh 0)
      [some (.ok adder), some (.error (.fault (.unsupported "+" [.integer, .boolean]))),
        some (.ok (.int 5))] (bound 3) :=
    .cons hbind (show perform 20 _ _ = some (_, bound 1) from rfl) <|
      .cons hmisuse (show perform 20 _ _ = some (_, bound 2) from rfl) <|
        .cons huse (show perform 20 _ _ = some (_, bound 3) from rfl) (.nil _)
  exact ⟨_, _, hrun, rfl, undefined_not_mem_of_wellScoped hrun⟩

end Session

end Monkey

import Mathlib.Data.List.Nodup
import Monkey.Proofs.Evaluation.Invariant
import Monkey.Proofs.Session.Run

/-! # Names that are bound twice

A program is tidy if no sequence of statements in it binds a name twice at its
own level and no function has a parameter twice. In tidy programs every binding
meets a scope that lacks the name: the scope of a block, a program or a call is
new, and the statements that bind in it have different names. The bodies of
stored functions are tidy as well, so this holds in every later call.
-/

namespace Monkey

mutual

/-- Whether every sequence of statements in an expression, and every function, is tidy. -/
def Expr.Tidy : Expr → Prop
  | .ident _ | .int _ | .str _ | .bool _ => True
  | .unary _ operand => operand.Tidy
  | .binary _ left right => left.Tidy ∧ right.Tidy
  | .cond condition consequence none =>
    condition.Tidy ∧ (Block.names consequence).Nodup ∧ Stmt.AllTidy consequence
  | .cond condition consequence (some alternative) =>
    condition.Tidy ∧ ((Block.names consequence).Nodup ∧ Stmt.AllTidy consequence) ∧
      (Block.names alternative).Nodup ∧ Stmt.AllTidy alternative
  | .fn params body => params.Nodup ∧ (Block.names body).Nodup ∧ Stmt.AllTidy body
  | .call callee args => callee.Tidy ∧ Expr.AllTidy args

/-- Whether each of several expressions is tidy. -/
def Expr.AllTidy : List Expr → Prop
  | [] => True
  | e :: es => e.Tidy ∧ Expr.AllTidy es

/-- Whether the expression of a statement is tidy. -/
def Stmt.Tidy : Stmt → Prop
  | .bind _ value | .ret value | .expr value => value.Tidy

/-- Whether the expression of each of several statements is tidy. -/
def Stmt.AllTidy : List Stmt → Prop
  | [] => True
  | s :: ss => s.Tidy ∧ Stmt.AllTidy ss

end

/-- Whether the statements of a block bind different names, and each of them is tidy. -/
def Block.Tidy (b : Block) : Prop :=
  (Block.names b).Nodup ∧ Stmt.AllTidy b

theorem Expr.tidy_cond_iff {condition : Expr} {consequence : Block} {alternative : Option Block} :
    (Expr.cond condition consequence alternative).Tidy ↔
      condition.Tidy ∧ Block.Tidy consequence ∧ ∀ b ∈ alternative, Block.Tidy b := by
  cases alternative <;> simp [Expr.Tidy, Block.Tidy]

/-- Values whose functions have tidy bodies and different parameters. -/
inductive Value.Tidy : Value → Prop
  | data {v : Value} : v.IsData → Tidy v
  | function {id : Nat} {params : List String} {body : List Stmt} {captured : Environment Value} :
      params.Nodup → Block.Tidy body → (∀ x v, captured.get? x = some v → Tidy v) →
      Tidy (.function id params body captured)

namespace Environment

variable {α : Type}

/-- Whether the innermost scope lacks each of several names. -/
def Lacks (e : Environment α) (names : List String) : Prop :=
  ∀ x ∈ names, Scope.binds e.current x = false

variable {e e' : Environment α} {name : String} {names : List String} {v : α}

theorem lacks_enter (e : Environment α) (names : List String) : e.enter.Lacks names :=
  fun _ _ => rfl

theorem Lacks.define (h : e.Lacks names) (hname : name ∉ names)
    (hd : e.define name v = .ok e') : e'.Lacks names := by
  obtain ⟨-, rfl⟩ := define_eq_ok_iff.1 hd
  intro x hx
  have hne : x ≠ name := fun he => hname (he ▸ hx)
  simp only [Scope.binds, Scope.get?_cons, if_neg hne]
  exact h x hx

/-- Different names that a scope lacks can be bound in it one after the other. -/
theorem exists_defineAll {bs : List (String × α)} (h : e.Lacks (bs.map Prod.fst))
    (hbs : (bs.map Prod.fst).Nodup) : ∃ e', e.defineAll bs = .ok e' := by
  induction bs generalizing e with
  | nil => exact ⟨e, rfl⟩
  | cons b bs ih =>
    obtain ⟨name, v⟩ := b
    obtain ⟨hname, hrest⟩ := List.nodup_cons.1 hbs
    have hnew : Scope.binds e.current name = false := h name List.mem_cons_self
    have hd := define_eq_ok_iff (v := v).2 ⟨hnew, rfl⟩
    have hlacks : e.Lacks (bs.map Prod.fst) := fun x hx => h x (List.mem_cons_of_mem _ hx)
    obtain ⟨e', he'⟩ := ih (hlacks.define hname hd) hrest
    exact ⟨e', defineAll_cons_eq_ok_iff.2 ⟨_, hd, he'⟩⟩

end Environment

/-- The faults other than a name that is bound twice. -/
def Fault.NotDuplicate (e : Fault) : Prop :=
  ∀ name, e ≠ .duplicate name

theorem Fault.OfOperator.notDuplicate {e : Fault} (h : e.OfOperator) : e.NotDuplicate := by
  rintro name rfl
  exact h

namespace Eval

/-- Every outcome in the environment `env` hands on tidy values, and no name is bound twice. -/
abbrev KeepsTidy {α : Type} (x : Eval α) (env : Environment Value) (Good : α → Prop) : Prop :=
  Upholds Value.Tidy Fault.NotDuplicate x env Good

/-- Whether an outcome is one of a tidy evaluation, and leaves tidy values in the environment. -/
def TidyEnd (r : Outcome) (t : Session) : Prop :=
  Upheld Value.Tidy Fault.NotDuplicate Value.Tidy r ∧ t.env.Every Value.Tidy

/-- What tidy evaluation means for each rule when `n` nested rules may start. -/
structure TidyAt (n : Nat) : Prop where
  expr {env : Environment Value} (e : Expr) : env.Every Value.Tidy → e.Tidy →
    KeepsTidy (expr n e) env Value.Tidy
  exprs {env : Environment Value} (es : List Expr) : env.Every Value.Tidy → Expr.AllTidy es →
    KeepsTidy (exprs n es) env fun vs => ∀ v ∈ vs, v.Tidy
  stmt {s : Session} {names : List String} (st : Stmt) : s.env.Every Value.Tidy → st.Tidy →
    s.env.Lacks (st.name?.toList ++ names) → (st.name?.toList ++ names).Nodup →
    Ensures (stmt n st) s fun r t => TidyEnd r t ∧ t.env.Lacks names
  stmts {s : Session} (v : Value) (ss : List Stmt) : v.Tidy → s.env.Every Value.Tidy →
    Block.Tidy ss → s.env.Lacks (Block.names ss) → Ensures (stmts n v ss) s TidyEnd
  block {env : Environment Value} (b : Block) : env.Every Value.Tidy → Block.Tidy b →
    KeepsTidy (block n b) env Value.Tidy
  call {env : Environment Value} (params : List String) (body : Block)
    (captured : Environment Value) (args : List Value) : captured.Every Value.Tidy →
    params.Nodup → Block.Tidy body → (∀ v ∈ args, v.Tidy) →
    KeepsTidy (call n params body captured args) env Value.Tidy

variable {n : Nat} {env : Environment Value}

theorem keepsTidy_ofOperator {r : Except Fault Value} (h : IsOperatorResult r) :
    KeepsTidy (ofExcept r) env Value.Tidy :=
  Upholds.ofOperator (fun _ hv => .data hv) (fun _ he => he.notDuplicate) h

theorem tidy_expr_succ (ih : TidyAt n) (e : Expr) (henv : env.Every Value.Tidy) (he : e.Tidy) :
    KeepsTidy (expr (n + 1) e) env Value.Tidy := by
  have hframe := framesAt n
  cases e with
  | ident name => exact .lookup henv nofun
  | int n => exact .pure (.data nofun)
  | str s => exact .pure (.data nofun)
  | bool b => exact .pure (.data nofun)
  | unary op operand =>
    refine (ih.expr operand henv he).bind (hframe.expr operand) fun v _ => ?_
    exact keepsTidy_ofOperator (op.apply_isOperatorResult v)
  | binary op left right =>
    refine (ih.expr left henv he.1).bind (hframe.expr left) fun v _ => ?_
    refine (ih.expr right henv he.2).bind (hframe.expr right) fun w _ => ?_
    exact keepsTidy_ofOperator (op.apply_isOperatorResult v w)
  | cond condition consequence alternative =>
    obtain ⟨hcond, hcons, halt⟩ := Expr.tidy_cond_iff.1 he
    refine (ih.expr condition henv hcond).bind (hframe.expr condition) fun v _ => ?_
    split
    · exact ih.block _ henv hcons
    · exact ih.block _ henv (halt _ rfl)
    · exact .pure (.data nofun)
    · exact .fail nofun
  | fn params body => exact .makeFunction fun id => .function he.1 he.2 henv
  | call callee args =>
    refine (ih.expr callee henv he.1).bind (hframe.expr callee) fun v hv => ?_
    cases hv with
    | function hparams hbody hcaptured =>
      refine (ih.exprs args henv he.2).bind (hframe.exprs args) fun vs hvs => ?_
      exact ih.call _ _ _ vs hcaptured hparams hbody hvs
    | data hdata =>
      split
      · exact absurd rfl hdata
      · exact .fail nofun

theorem tidy_exprs_succ (ih : TidyAt n) (es : List Expr) (henv : env.Every Value.Tidy)
    (hes : Expr.AllTidy es) : KeepsTidy (exprs (n + 1) es) env fun vs => ∀ v ∈ vs, v.Tidy := by
  have hframe := framesAt n
  cases es with
  | nil => exact .pure nofun
  | cons e es =>
    refine (ih.expr e henv hes.1).bind (hframe.expr e) fun v hv => ?_
    refine (ih.exprs es henv hes.2).bind (hframe.exprs es) fun vs hvs => .pure ?_
    exact List.forall_mem_cons.2 ⟨hv, hvs⟩

/-- A statement binds at most its own name, so the scope goes on to lack the names after it. -/
theorem tidy_stmt_succ (ih : TidyAt n) {s : Session} {names : List String} (st : Stmt)
    (henv : s.env.Every Value.Tidy) (hst : st.Tidy)
    (hlacks : s.env.Lacks (st.name?.toList ++ names))
    (hnames : (st.name?.toList ++ names).Nodup) :
    Ensures (stmt (n + 1) st) s fun r t => TidyEnd r t ∧ t.env.Lacks names := by
  have hrest : s.env.Lacks names := fun x hx => hlacks x (List.mem_append_right _ hx)
  have hvalue (value : Expr) (hv : value.Tidy) : Ensures (expr n value) s fun r t =>
      t.env = s.env ∧ Upheld Value.Tidy Fault.NotDuplicate Value.Tidy r :=
    ((framesAt n).expr value s).and (ih.expr value henv hv s rfl)
  cases st with
  | bind name value =>
    refine (hvalue value hst).bind ?_ ?_
    · rintro v t ⟨ht, hv⟩
      have hnew : Scope.binds t.env.current name = false :=
        ht ▸ hlacks name (List.mem_append_left _ List.mem_cons_self)
      have hdefine : Ensures (define name v) t fun r u =>
          r = .ok () ∧ t.env.define name v = .ok u.env := by
        intro r u hr
        rw [runIn_define, Environment.define_eq_ok_iff.2 ⟨hnew, rfl⟩] at hr
        cases hr
        exact ⟨rfl, Environment.define_eq_ok_iff.2 ⟨hnew, rfl⟩⟩
      rw [ht] at hdefine
      refine hdefine.bind ?_ ?_
      · rintro - u ⟨-, hd⟩
        exact .pure ⟨⟨hv, henv.define hv hd⟩, hrest.define (List.nodup_cons.1 hnames).1 hd⟩
      · rintro e u ⟨h, -⟩
        cases h
    · rintro (v | e) t ⟨ht, h⟩
      · exact ⟨⟨h, ht ▸ henv⟩, ht ▸ hrest⟩
      · exact ⟨⟨h, ht ▸ henv⟩, ht ▸ hrest⟩
  | ret value =>
    refine (hvalue value hst).bind ?_ ?_
    · rintro v t ⟨ht, hv⟩
      exact .returning ⟨⟨hv, ht ▸ henv⟩, ht ▸ hrest⟩
    · rintro (v | e) t ⟨ht, h⟩
      · exact ⟨⟨h, ht ▸ henv⟩, ht ▸ hrest⟩
      · exact ⟨⟨h, ht ▸ henv⟩, ht ▸ hrest⟩
  | expr value =>
    refine (hvalue value hst).imp ?_
    rintro r t ⟨ht, h⟩
    exact ⟨⟨h, ht ▸ henv⟩, ht ▸ hrest⟩

theorem Block.names_cons (st : Stmt) (ss : List Stmt) :
    Block.names (st :: ss) = st.name?.toList ++ Block.names ss := by
  cases h : st.name? <;> simp [Block.names, h]

theorem tidy_stmts_succ (ih : TidyAt n) {s : Session} (v : Value) (ss : List Stmt) (hv : v.Tidy)
    (henv : s.env.Every Value.Tidy) (hss : Block.Tidy ss) (hlacks : s.env.Lacks (Block.names ss)) :
    Ensures (stmts (n + 1) v ss) s TidyEnd := by
  cases ss with
  | nil => exact .pure ⟨hv, henv⟩
  | cons st ss =>
    obtain ⟨hnames, hst, hrest⟩ := hss
    rw [Block.names_cons] at hnames hlacks
    refine (ih.stmt st henv hst hlacks hnames).bind ?_ ?_
    · rintro w t ⟨⟨hw, ht⟩, hlacks'⟩
      exact ih.stmts w ss hw ht ⟨(List.nodup_append.1 hnames).2.1, hrest⟩ hlacks'
    · rintro (w | e) t ⟨h, -⟩
      · exact h
      · exact h

theorem tidy_block_succ (ih : TidyAt n) (b : Block) (henv : env.Every Value.Tidy)
    (hb : Block.Tidy b) : KeepsTidy (block (n + 1) b) env Value.Tidy := by
  rintro s rfl
  have hstmts : Ensures (stmts n .null b) { s with env := s.env.enter } TidyEnd :=
    ih.stmts .null b (.data nofun) henv.enter hb (Environment.lacks_enter _ _)
  exact .inScope (hstmts.imp fun _ _ h => h.1)

theorem tidy_call_succ (ih : TidyAt n) (params : List String) (body : Block)
    (captured : Environment Value) (args : List Value) (hcaptured : captured.Every Value.Tidy)
    (hparams : params.Nodup) (hbody : Block.Tidy body) (hargs : ∀ v ∈ args, v.Tidy) :
    KeepsTidy (call (n + 1) params body captured args) env Value.Tidy := by
  unfold call
  split
  · next hlen =>
    have hfst : (params.zip args).map Prod.fst = params := List.map_fst_zip (Nat.le_of_eq hlen)
    obtain ⟨inner, hinner⟩ := Environment.exists_defineAll
      (Environment.lacks_enter captured ((params.zip args).map Prod.fst)) (hfst.symm ▸ hparams)
    rw [hinner]
    have hpairs : ∀ b ∈ params.zip args, b.2.Tidy := fun b hb => hargs b.2 (List.of_mem_zip hb).2
    exact .within (.landing (ih.block body (hcaptured.enter.defineAll hpairs hinner) hbody))
  · exact .fail fun name h => by cases h

theorem tidyAt (n : Nat) : TidyAt n := by
  induction n with
  | zero =>
    exact ⟨fun _ _ _ => .tooDeep, fun _ _ _ => .tooDeep, fun _ _ _ _ _ => .tooDeep,
      fun _ _ _ _ _ _ => .tooDeep, fun _ _ _ => .tooDeep, fun _ _ _ _ _ _ _ _ => .tooDeep⟩
  | succ n ih =>
    exact ⟨tidy_expr_succ ih, tidy_exprs_succ ih, tidy_stmt_succ ih, tidy_stmts_succ ih,
      tidy_block_succ ih, tidy_call_succ ih⟩

/-- A tidy program binds no name twice in its scope, whatever the scopes around it bind. -/
theorem tidy_program (n : Nat) {s : Session} {p : Program} (henv : s.env.Every Value.Tidy)
    (hp : Block.Tidy p) : Ensures (program n p) s TidyEnd := by
  have hstmts : Ensures (stmts n .null p) { s with env := s.env.enter } TidyEnd :=
    (tidyAt n).stmts .null p (.data nofun) henv.enter hp (Environment.lacks_enter _ _)
  refine .committing (hstmts.imp ?_) (hstmts.imp ?_)
  · rintro r t ⟨hr, ht⟩
    exact ⟨hr, ht.commit⟩
  · rintro r t h e rfl
    exact h

end Eval

namespace Session

open Eval

/-- Every action but a single statement, of tidy programs and blocks. -/
def Tidy (_ : Session) : Action → Prop
  | .execute p | .program p | .block p => Block.Tidy p
  | .lookup _ | .reset => True
  | .statement _ => False

theorem tidy_execute {s t : Session} {n : Nat} {p : Program} {r : Except Fault Value}
    (hs : s.env.Every Value.Tidy) (hp : Block.Tidy p) (hr : s.execute n p = some (r, t)) :
    t.env.Every Value.Tidy ∧ ∀ name, r ≠ .error (.duplicate name) := by
  obtain ⟨⟨o, u⟩, hrun, he⟩ := Option.map_eq_some_iff.1 hr
  obtain ⟨hend, henv⟩ := tidy_program n hs hp o u hrun
  rcases o with (v | e) | v <;> cases he
  · exact ⟨henv, nofun⟩
  · exact ⟨hs, fun name h => hend name (by cases h; rfl)⟩
  · exact ⟨henv, nofun⟩

theorem ne_duplicate_of_upheld {r : Outcome} {name : String}
    (h : Upheld Value.Tidy Fault.NotDuplicate Value.Tidy r) :
    some r ≠ some (.error (.fault (.duplicate name))) := by
  rintro ⟨⟩
  exact h name rfl

/--
No action of a session binds a name twice in one scope, whatever is shadowed, bound again by later
programs or left over by failed ones, if its programs and blocks are tidy.
-/
theorem duplicate_not_mem_of_tidy {firstId : Nat} {os : List (Option Outcome)} {t : Session}
    (h : Run Tidy (fresh firstId) os t) (name : String) :
    some (.error (.fault (.duplicate name))) ∉ os := by
  have hstep (s : Session) (a : Action) (n : Nat) (o : Option Outcome) (t : Session)
      (hs : s.env.Every Value.Tidy) (ha : s.Tidy a) (hp : s.perform n a = some (o, t)) :
      t.env.Every Value.Tidy ∧ o ≠ some (.error (.fault (.duplicate name))) := by
    cases a with
    | execute p =>
      obtain ⟨⟨r, u⟩, hrun, he⟩ := Option.map_eq_some_iff.1 hp
      cases he
      obtain ⟨henv, hr⟩ := tidy_execute hs ha hrun
      refine ⟨henv, fun h => ?_⟩
      cases r with
      | ok v => cases h
      | error e => cases h; exact hr name rfl
    | program p =>
      obtain ⟨⟨r, _⟩, hrun, he⟩ := Option.map_eq_some_iff.1 hp
      cases he
      obtain ⟨hend, henv⟩ := tidy_program n hs ha r t hrun
      exact ⟨henv, ne_duplicate_of_upheld hend⟩
    | block b =>
      obtain ⟨⟨r, _⟩, hrun, he⟩ := Option.map_eq_some_iff.1 hp
      cases he
      have hframe : t.env = s.env := (framesAt n).block b s r t hrun
      exact ⟨hframe ▸ hs, ne_duplicate_of_upheld ((tidyAt n).block b hs ha s rfl r t hrun)⟩
    | lookup x =>
      cases hp
      refine ⟨hs, ?_⟩
      unfold Environment.get
      cases s.env.get? x with
      | none => exact nofun
      | some v => exact nofun
    | reset =>
      cases hp
      exact ⟨.empty, nofun⟩
    | statement st => exact ha.elim
  intro hmem
  exact (h.invariant hstep .empty).2 _ hmem rfl

/-- A scope left open by a failed program, a parameter bound again in a body, and a new binding. -/
theorem duplicate_not_mem_rebound : ∃ os t, Run Tidy (fresh 0) os t ∧ t.env.depth = 2 ∧
    os.getLast? = some (some (.ok (.int 4))) ∧
    ∀ name, some (.error (.fault (.duplicate name))) ∉ os := by
  let body : Block := [.bind "x" (.binary .add (.ident "x") (.int 1)),
    .expr (.cond (.bool true) [.bind "x" (.int 9)] none), .expr (.ident "x")]
  let leave : Action :=
    .program [.bind "f" (.fn ["x"] body), .bind "x" (.int 1), .expr (.ident "y")]
  let rebind : Action := .execute [.bind "x" (.int 3), .bind "g" (.ident "f")]
  let use : Action := .block [.bind "x" (.call (.ident "g") [.ident "x"]), .expr (.ident "x")]
  have hbody : Block.Tidy body :=
    ⟨by decide, ⟨trivial, trivial⟩, ⟨trivial, by decide, trivial, trivial⟩, trivial, trivial⟩
  have hleave (s : Session) : s.Tidy leave :=
    ⟨by decide, ⟨by decide, hbody⟩, trivial, trivial, trivial⟩
  have hrebind (s : Session) : s.Tidy rebind := ⟨by decide, trivial, trivial, trivial⟩
  have huse (s : Session) : s.Tidy use := ⟨by decide, ⟨trivial, trivial, trivial⟩, trivial, trivial⟩
  obtain ⟨os, t, hrun, hdepth, hlast⟩ : ∃ os t, Run Tidy (fresh 0) os t ∧ t.env.depth = 2 ∧
      os.getLast? = some (some (.ok (.int 4))) :=
    ⟨_, _, .cons (hleave _) (show perform 20 _ leave = some (_, _) from rfl) <|
      .cons (hrebind _) (show perform 20 _ rebind = some (_, _) from rfl) <|
        .cons (huse _) (show perform 20 _ use = some (_, _) from rfl) (.nil _), rfl, rfl⟩
  exact ⟨os, t, hrun, hdepth, hlast, duplicate_not_mem_of_tidy hrun⟩

end Session

end Monkey

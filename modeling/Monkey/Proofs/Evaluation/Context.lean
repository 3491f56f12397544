import Monkey.Proofs.Evaluation.Frame
import Monkey.Proofs.Evaluation.Yields

/-! # Evaluation contexts

A context is an expression, a statement or a block with a hole where one expression is
missing. The hole is never inside a function's body: that is evaluated by calls, in
other environments. What stands to the left of the hole is evaluated before it, and
everything else after it, if at all.
-/

namespace Monkey

/-- The parts of programs that are evaluated with a hole in them. -/
inductive Part
  | expr
  | stmt
  | block

/-- The syntax of a part. -/
abbrev Part.Syntax : Part → Type
  | expr => Expr
  | stmt => Stmt
  | block => Block

/-- The value of a part. -/
def Eval.part : (k : Part) → Nat → k.Syntax → Eval Value
  | .expr => expr
  | .stmt => stmt
  | .block => block

/-- A part of a program with a hole for an expression. -/
inductive Context : Part → Type
  | hole : Context .expr
  | unary (op : UnaryOp) (operand : Context .expr) : Context .expr
  | left (op : BinaryOp) (left : Context .expr) (right : Expr) : Context .expr
  | right (op : BinaryOp) (left : Expr) (right : Context .expr) : Context .expr
  | condition (condition : Context .expr) (consequence : Block) (alternative : Option Block) :
      Context .expr
  | consequence (condition : Expr) (consequence : Context .block) (alternative : Option Block) :
      Context .expr
  | alternative (condition : Expr) (consequence : Block) (alternative : Context .block) :
      Context .expr
  | callee (callee : Context .expr) (args : List Expr) : Context .expr
  | argument (callee : Expr) (before : List Expr) (arg : Context .expr) (after : List Expr) :
      Context .expr
  | bind (name : String) (value : Context .expr) : Context .stmt
  | ret (value : Context .expr) : Context .stmt
  | expr (value : Context .expr) : Context .stmt
  | block (before : List Stmt) (stmt : Context .stmt) (after : List Stmt) : Context .block

namespace Context

/-- The part of a program that has an expression in place of the hole. -/
def fill (e : Expr) : {k : Part} → Context k → k.Syntax
  | _, .hole => e
  | _, .unary op operand => .unary op (operand.fill e)
  | _, .left op l r => .binary op (l.fill e) r
  | _, .right op l r => .binary op l (r.fill e)
  | _, .condition c b d => .cond (c.fill e) b d
  | _, .consequence c b d => .cond c (b.fill e) d
  | _, .alternative c b d => .cond c b (some (d.fill e))
  | _, .callee f args => .call (f.fill e) args
  | _, .argument f before arg after => .call f (before ++ arg.fill e :: after)
  | _, .bind name value => .bind name (value.fill e)
  | _, .ret value => .ret (value.fill e)
  | _, .expr value => .expr (value.fill e)
  | _, .block before st after => before ++ st.fill e :: after

/--
Whether two contexts have the same evaluated before the hole. What would be evaluated after it may
differ, and so may a branch that is not taken.
-/
inductive Alike : {k : Part} → Context k → Context k → Prop
  | hole : Alike .hole .hole
  | unary (op op' : UnaryOp) {C C' : Context .expr} : Alike C C' →
      Alike (.unary op C) (.unary op' C')
  | left (op op' : BinaryOp) (r r' : Expr) {C C' : Context .expr} : Alike C C' →
      Alike (.left op C r) (.left op' C' r')
  | right (op op' : BinaryOp) (l : Expr) {C C' : Context .expr} : Alike C C' →
      Alike (.right op l C) (.right op' l C')
  | condition (b b' : Block) (d d' : Option Block) {C C' : Context .expr} : Alike C C' →
      Alike (.condition C b d) (.condition C' b' d')
  | consequence (c : Expr) (d d' : Option Block) {C C' : Context .block} : Alike C C' →
      Alike (.consequence c C d) (.consequence c C' d')
  | alternative (c : Expr) (b b' : Block) {C C' : Context .block} : Alike C C' →
      Alike (.alternative c b C) (.alternative c b' C')
  | callee (args args' : List Expr) {C C' : Context .expr} : Alike C C' →
      Alike (.callee C args) (.callee C' args')
  | argument (f : Expr) (before after after' : List Expr) {C C' : Context .expr} : Alike C C' →
      Alike (.argument f before C after) (.argument f before C' after')
  | bind (name name' : String) {C C' : Context .expr} : Alike C C' →
      Alike (.bind name C) (.bind name' C')
  | ret {C C' : Context .expr} : Alike C C' → Alike (.ret C) (.ret C')
  | expr {C C' : Context .expr} : Alike C C' → Alike (.expr C) (.expr C')
  | block (before after after' : List Stmt) {C C' : Context .stmt} : Alike C C' →
      Alike (.block before C after) (.block before C' after')

/--
Whether the evaluation of a context that is begun in one session comes to its hole in another:
everything before the hole ends normally, a branch with the hole is the one that is taken, and a
callee before the hole is a function.
-/
inductive Reaches : {k : Part} → Context k → Session → Session → Prop
  | hole (s : Session) : Reaches .hole s s
  | unary {op : UnaryOp} {C : Context .expr} {s t : Session} : Reaches C s t →
      Reaches (.unary op C) s t
  | left {op : BinaryOp} {C : Context .expr} {r : Expr} {s t : Session} : Reaches C s t →
      Reaches (.left op C r) s t
  | right {op : BinaryOp} {l : Expr} {C : Context .expr} {v : Value} {s s₁ t : Session} :
      Eval.Yields (fun n => Eval.expr n l) s (.ok v, s₁) → Reaches C s₁ t →
      Reaches (.right op l C) s t
  | condition {C : Context .expr} {b : Block} {d : Option Block} {s t : Session} : Reaches C s t →
      Reaches (.condition C b d) s t
  | consequence {c : Expr} {C : Context .block} {d : Option Block} {s s₁ t : Session} :
      Eval.Yields (fun n => Eval.expr n c) s (.ok (.bool true), s₁) → Reaches C s₁ t →
      Reaches (.consequence c C d) s t
  | alternative {c : Expr} {b : Block} {C : Context .block} {s s₁ t : Session} :
      Eval.Yields (fun n => Eval.expr n c) s (.ok (.bool false), s₁) → Reaches C s₁ t →
      Reaches (.alternative c b C) s t
  | callee {C : Context .expr} {args : List Expr} {s t : Session} : Reaches C s t →
      Reaches (.callee C args) s t
  | argument {f : Expr} {before after : List Expr} {C : Context .expr} {id : Nat}
      {params : List String} {body : Block} {captured : Environment Value} {vs : List Value}
      {s s₁ s₂ t : Session} :
      Eval.Yields (fun n => Eval.expr n f) s (.ok (.function id params body captured), s₁) →
      Eval.Yields (fun n => Eval.exprs n before) s₁ (.ok vs, s₂) → Reaches C s₂ t →
      Reaches (.argument f before C after) s t
  | bind {name : String} {C : Context .expr} {s t : Session} : Reaches C s t →
      Reaches (.bind name C) s t
  | ret {C : Context .expr} {s t : Session} : Reaches C s t → Reaches (.ret C) s t
  | expr {C : Context .expr} {s t : Session} : Reaches C s t → Reaches (.expr C) s t
  | block {before after : List Stmt} {C : Context .stmt} {v : Value} {s s₁ t : Session} :
      Eval.Yields (fun n => Eval.stmts n .null before) { s with env := s.env.enter } (.ok v, s₁) →
      Reaches C s₁ t → Reaches (.block before C after) s t

variable {k : Part} {C C' : Context k} {s t : Session}

theorem Alike.reaches (h : C.Alike C') (hC : C.Reaches s t) : C'.Reaches s t := by
  induction h generalizing s with
  | hole => exact hC
  | unary _ _ _ ih => cases hC with | unary hC => exact .unary (ih hC)
  | left _ _ _ _ _ ih => cases hC with | left hC => exact .left (ih hC)
  | right _ _ _ _ ih => cases hC with | right hl hC => exact .right hl (ih hC)
  | condition _ _ _ _ _ ih => cases hC with | condition hC => exact .condition (ih hC)
  | consequence _ _ _ _ ih => cases hC with | consequence hc hC => exact .consequence hc (ih hC)
  | alternative _ _ _ _ ih => cases hC with | alternative hc hC => exact .alternative hc (ih hC)
  | callee _ _ _ ih => cases hC with | callee hC => exact .callee (ih hC)
  | argument _ _ _ _ _ ih =>
    cases hC with | argument hf hbefore hC => exact .argument hf hbefore (ih hC)
  | bind _ _ _ ih => cases hC with | bind hC => exact .bind (ih hC)
  | ret _ ih => cases hC with | ret hC => exact .ret (ih hC)
  | expr _ ih => cases hC with | expr hC => exact .expr (ih hC)
  | block _ _ _ _ ih => cases hC with | block hbefore hC => exact .block hbefore (ih hC)

theorem Alike.refl (C : Context k) : C.Alike C := by
  induction C with
  | hole => exact .hole
  | unary op _ ih => exact .unary op op ih
  | left op _ r ih => exact .left op op r r ih
  | right op l _ ih => exact .right op op l ih
  | condition _ b d ih => exact .condition b b d d ih
  | consequence c _ d ih => exact .consequence c d d ih
  | alternative c b _ ih => exact .alternative c b b ih
  | callee _ args ih => exact .callee args args ih
  | argument f before _ after ih => exact .argument f before after after ih
  | bind name _ ih => exact .bind name name ih
  | ret _ ih => exact .ret ih
  | expr _ ih => exact .expr ih
  | block before _ after ih => exact .block before after after ih

end Context

namespace Eval

variable {s t u : Session} {e : Expr} {a : Abrupt}

/-! ## What ends abruptly, step by step -/

theorem yields_expr {n : Nat} {o : Outcome × Session} (h : (expr n e).runIn s = some o) :
    Yields (fun n => expr n e) s o :=
  .of_runIn (fun k => (deeperAt k).expr e) h

theorem env_of_yields_expr {r : Outcome} (h : Yields (fun n => expr n e) s (r, t)) :
    t.env = s.env := by
  obtain ⟨n, h⟩ := h
  exact (framesAt n).expr e s r t (h n (Nat.le_refl n))

theorem env_of_yields_exprs {es : List Expr} {r : Except Abrupt (List Value)}
    (h : Yields (fun n => exprs n es) s (r, t)) : t.env = s.env := by
  obtain ⟨n, h⟩ := h
  exact (framesAt n).exprs es s r t (h n (Nat.le_refl n))

theorem outer_of_yields_stmts {v : Value} {ss : List Stmt} {r : Outcome}
    (h : Yields (fun n => stmts n v ss) s (r, t)) : t.env.outer = s.env.outer := by
  obtain ⟨n, h⟩ := h
  exact (framesAt n).stmts v ss s r t (h n (Nat.le_refl n))

theorem yields_exprs_abrupt {before after : List Expr} {vs : List Value}
    (hbefore : Yields (fun n => exprs n before) s (.ok vs, t))
    (he : Yields (fun n => expr n e) t (.error a, u)) :
    Yields (fun n => exprs n (before ++ e :: after)) s (.error a, u) := by
  obtain ⟨n, hbefore⟩ := hbefore
  replace hbefore := hbefore n (Nat.le_refl n)
  induction before generalizing n s vs with
  | nil =>
    cases n with
    | zero => simp [exprs] at hbefore
    | succ n =>
      cases hbefore
      exact .of_succ (.bind_error he)
  | cons d before ih =>
    cases n with
    | zero => simp [exprs] at hbefore
    | succ n =>
      change (expr n d >>= fun v => exprs n before >>= fun vs => pure (v :: vs)).runIn s = _
        at hbefore
      rw [runIn_bind] at hbefore
      obtain ⟨⟨_ | v, s₁⟩, hd, hbefore⟩ := Option.bind_eq_some_iff.1 hbefore
      · cases hbefore
      simp only [runIn_bind] at hbefore
      obtain ⟨⟨_ | ws, s₂⟩, hrest, hend⟩ := Option.bind_eq_some_iff.1 hbefore
      · cases hend
      · cases hend
        exact .of_succ (.bind (yields_expr hd) (.bind_error (ih n hrest)))

theorem yields_stmts_abrupt {v w : Value} {before after : List Stmt} {st : Stmt}
    (hbefore : Yields (fun n => stmts n v before) s (.ok w, t))
    (hst : Yields (fun n => stmt n st) t (.error a, u)) :
    Yields (fun n => stmts n v (before ++ st :: after)) s (.error a, u) := by
  obtain ⟨n, hbefore⟩ := hbefore
  replace hbefore := hbefore n (Nat.le_refl n)
  induction before generalizing n v s with
  | nil =>
    cases n with
    | zero => simp [stmts] at hbefore
    | succ n =>
      cases hbefore
      exact .of_succ (.bind_error hst)
  | cons first before ih =>
    cases n with
    | zero => simp [stmts] at hbefore
    | succ n =>
      change (stmt n first >>= fun v => stmts n v before).runIn s = _ at hbefore
      rw [runIn_bind] at hbefore
      obtain ⟨⟨_ | x, s₁⟩, hfirst, hrest⟩ := Option.bind_eq_some_iff.1 hbefore
      · cases hrest
      · have hyields := Yields.of_runIn (fun k => (deeperAt k).stmt first) hfirst
        exact .of_succ (.bind hyields (ih n hrest))

theorem exit_of_outer_eq {env env' : Environment Value} (h : env'.outer = env.enter.outer) :
    env'.exit = env := by
  rw [Environment.exit, h]
  rfl

/-- What ends the hole ends the whole, and the environment is again the one before. -/
theorem yields_fill {k : Part} {C : Context k} (hC : C.Reaches s t)
    (he : Yields (fun n => expr n e) t (.error a, u)) :
    Yields (fun n => part k n (C.fill e)) s (.error a, { u with env := s.env }) := by
  induction hC with
  | hole s =>
    rw [← env_of_yields_expr he]
    exact he
  | unary _ ih => exact .of_succ (.bind_error (ih he))
  | left _ ih => exact .of_succ (.bind_error (ih he))
  | right hl _ ih =>
    have hr := ih he
    rw [env_of_yields_expr hl] at hr
    exact .of_succ (.bind hl (.bind_error hr))
  | condition _ ih => exact .of_succ (.bind_error (ih he))
  | @consequence c C d s s₁ t hc _ ih =>
    have hb := ih he
    rw [env_of_yields_expr hc] at hb
    exact .of_succ (.bind hc hb)
  | alternative hc _ ih =>
    have hb := ih he
    rw [env_of_yields_expr hc] at hb
    exact .of_succ (.bind hc hb)
  | callee _ ih => exact .of_succ (.bind_error (ih he))
  | argument hf hbefore _ ih =>
    have harg := ih he
    rw [env_of_yields_exprs hbefore, env_of_yields_expr hf] at harg
    exact .of_succ (.bind hf (.bind_error (yields_exprs_abrupt hbefore harg)))
  | bind _ ih => exact .of_succ (.bind_error (ih he))
  | ret _ ih => exact .of_succ (.bind_error (ih he))
  | expr _ ih => exact .of_succ (ih he)
  | @block before after C v s s₁ t hbefore _ ih =>
    have hexit : s₁.env.exit = s.env := exit_of_outer_eq (outer_of_yields_stmts hbefore)
    rw [← hexit]
    exact .of_succ (yields_stmts_abrupt hbefore (ih he)).inScope

/-- A program ends with what ends its hole, in a session that nothing after the hole decides. -/
theorem exists_yields_program {C : Context .block} (hC : C.Reaches s t)
    (he : Yields (fun n => expr n e) t (.error a, u)) :
    ∃ w, ∀ C', C.Alike C' → Yields (fun n => program n (C'.fill e)) s (.error a, w) := by
  cases hC with
  | @block before after D v _ s₁ _ hbefore hD =>
    have hstmts {D' : Context .stmt} (hD' : D.Alike D') (after' : List Stmt) :
        Yields (fun n => stmts n .null (before ++ D'.fill e :: after'))
          { s with env := s.env.enter } (.error a, { u with env := s₁.env }) :=
      yields_stmts_abrupt hbefore (yields_fill (hD'.reaches hD) he)
    cases a with
    | returned v =>
      refine ⟨{ u with env := s₁.env.commit }, ?_⟩
      intro C' hC'
      cases hC' with
      | block _ _ after' hD' => exact (hstmts hD' after').committing_returned
    | fault e =>
      refine ⟨{ u with env := s₁.env }, ?_⟩
      intro C' hC'
      cases hC' with
      | block _ _ after' hD' => exact (hstmts hD' after').committing_fault

theorem yields_call {f : Expr} {args : List Expr} {id : Nat} {params : List String} {body : Block}
    {captured env : Environment Value} {vs : List Value} {v : Value} {s₁ s₂ : Session}
    (hf : Yields (fun n => expr n f) s (.ok (.function id params body captured), s₁))
    (hargs : Yields (fun n => exprs n args) s₁ (.ok vs, s₂)) (hlength : params.length = vs.length)
    (hdefine : captured.enter.defineAll (params.zip vs) = .ok env)
    (hbody : Yields (fun n => block n body) { s₂ with env } (.error (.returned v), t)) :
    Yields (fun n => expr n (.call f args)) s (.ok v, { t with env := s.env }) := by
  have hcall (n : Nat) :
      call (n + 1) params body captured vs = within env (landing (block n body)) := by
    rw [call, if_pos hlength, hdefine]
    rfl
  have hyields : Yields (fun n => call n params body captured vs) s₂
      (.ok v, { t with env := s₂.env }) := by
    apply Yields.of_succ
    simp only [hcall]
    exact hbody.landing.within
  rw [env_of_yields_exprs hargs, env_of_yields_expr hf] at hyields
  exact .of_succ (.bind hf (.bind hargs hyields))

theorem yields_notCallable {f : Expr} {args : List Expr} {v : Value}
    (hf : Yields (fun n => expr n f) s (.ok v, t)) (hv : v.kind ≠ .function) :
    Yields (fun n => expr n (.call f args)) s (.error (.fault (.notCallable v.kind)), t) := by
  cases v with
  | function => exact absurd rfl hv
  | _ => exact .of_succ (.bind hf .fail)

/--
Whatever ends the hole of a context abruptly ends the whole, once everything before the hole has
ended normally: with the same returned value or fault, and in the same session whatever stands
behind the hole. A program ends like a block. A call takes a returned value back that has come as
far as the body of its function. A callee that is no function ends a call before its arguments.
-/
theorem first_abrupt_decides :
    (∀ (k : Part) (C C' : Context k) (s t u : Session) (e : Expr) (a : Abrupt),
      C.Reaches s t → C.Alike C' → Yields (fun n => expr n e) t (.error a, u) →
        Yields (fun n => part k n (C.fill e)) s (.error a, { u with env := s.env }) ∧
        Yields (fun n => part k n (C'.fill e)) s (.error a, { u with env := s.env })) ∧
      (∀ (C : Context .block) (s t u : Session) (e : Expr) (a : Abrupt),
        C.Reaches s t → Yields (fun n => expr n e) t (.error a, u) →
          ∃ w, Yields (fun n => program n (C.fill e)) s (.error a, w) ∧
            ∀ C', C.Alike C' → Yields (fun n => program n (C'.fill e)) s (.error a, w)) ∧
      (∀ (f : Expr) (args : List Expr) (id : Nat) (params : List String) (body : Block)
        (captured env : Environment Value) (vs : List Value) (v : Value) (s s₁ s₂ t : Session),
        Yields (fun n => expr n f) s (.ok (.function id params body captured), s₁) →
        Yields (fun n => exprs n args) s₁ (.ok vs, s₂) → params.length = vs.length →
        captured.enter.defineAll (params.zip vs) = .ok env →
        Yields (fun n => block n body) { s₂ with env } (.error (.returned v), t) →
          Yields (fun n => expr n (.call f args)) s (.ok v, { t with env := s.env })) ∧
      ∀ (f : Expr) (args : List Expr) (v : Value) (s t : Session),
        Yields (fun n => expr n f) s (.ok v, t) → v.kind ≠ .function →
          Yields (fun n => expr n (.call f args)) s (.error (.fault (.notCallable v.kind)), t) := by
  refine ⟨?_, ?_, ?_, ?_⟩
  · intro k C C' s t u e a hC hC' he
    exact ⟨yields_fill hC he, yields_fill (hC'.reaches hC) he⟩
  · intro C s t u e a hC he
    obtain ⟨w, hw⟩ := exists_yields_program hC he
    exact ⟨w, hw C (.refl C), hw⟩
  · intro f args id params body captured env vs v s s₁ s₂ t hf hargs hlength hdefine hbody
    exact yields_call hf hargs hlength hdefine hbody
  · intro f args v s t hf hv
    exact yields_notCallable hf hv

/-- A return in an argument, two blocks deep; in a body, behind an operator; and a bad callee. -/
theorem first_abrupt_decides_nested :
    let body : Block :=
      [.expr (.binary .add (.int 1) (.cond (.bool true) [.ret (.ident "x")] none)),
        .expr (.ident "w")]
    let f : Value := .function 0 ["x"] body .empty
    let s : Session := ⟨⟨[("f", f)], []⟩, 1⟩
    let smaller : Expr := .binary .lt (.ident "x") (.int 2)
    let C : Context .block := .block [.bind "x" (.int 1)] (.bind "y" (.unary .neg
      (.consequence smaller (.block [.bind "z" (.int 2)] (.expr (.left .eq
        (.argument (.ident "f") [.ident "z"] .hole [.int 5]) (.int 3))) [.expr (.ident "w")])
        none))) [.expr (.ident "w")]
    let C' : Context .block := .block [.bind "x" (.int 1)] (.bind "x" (.unary .not
      (.consequence smaller (.block [.bind "z" (.int 2)] (.expr (.left .add
        (.argument (.ident "f") [.ident "z"] .hole []) (.bool true))) []) (some [])))) []
    let e : Expr := .cond (.bool true) [.ret (.ident "z")] none
    (Yields (fun n => block n (C.fill e)) s (.error (.returned (.int 2)), s) ∧
        Yields (fun n => block n (C'.fill e)) s (.error (.returned (.int 2)), s)) ∧
      (∃ w, Yields (fun n => program n (C.fill e)) s (.error (.returned (.int 2)), w) ∧
        Yields (fun n => program n (C'.fill e)) s (.error (.returned (.int 2)), w)) ∧
      Yields (fun n => expr n (.call (.ident "f") [.int 3])) s (.ok (.int 3), s) ∧
      Yields (fun n => expr n (.call (.int 5) [e])) s
        (.error (.fault (.notCallable .integer)), s) := by
  intro body f s smaller C C' e
  let t : Session := ⟨⟨[("z", .int 2)], [[("x", .int 1)], [("f", f)]]⟩, 1⟩
  have hx : Yields (fun n => stmts n .null [.bind "x" (.int 1)]) { s with env := s.env.enter }
      (.ok (.int 1), ⟨⟨[("x", .int 1)], [[("f", f)]]⟩, 1⟩) :=
    .of_runIn (fun k => (deeperAt k).stmts _ _) (n := 5) rfl
  have hsmaller : Yields (fun n => expr n smaller) ⟨⟨[("x", .int 1)], [[("f", f)]]⟩, 1⟩
      (.ok (.bool true), ⟨⟨[("x", .int 1)], [[("f", f)]]⟩, 1⟩) :=
    yields_expr (n := 5) rfl
  have hz : Yields (fun n => stmts n .null [.bind "z" (.int 2)])
      ⟨⟨[], [[("x", .int 1)], [("f", f)]]⟩, 1⟩ (.ok (.int 2), t) :=
    .of_runIn (fun k => (deeperAt k).stmts _ _) (n := 5) rfl
  have hbefore : Yields (fun n => exprs n [.ident "z"]) t (.ok [.int 2], t) :=
    .of_runIn (fun k => (deeperAt k).exprs _) (n := 5) rfl
  have hf : Yields (fun n => expr n (.ident "f")) t (.ok f, t) := yields_expr (n := 5) rfl
  have hC : C.Reaches s t := .block hx (.bind (.unary (.consequence hsmaller
    (.block hz (.expr (.left (.argument hf hbefore (.hole t))))))))
  have hC' : C.Alike C' := .block _ _ _ (.bind _ _ (.unary _ _ (.consequence _ _ _
    (.block _ _ _ (.expr (.left _ _ _ _ (.argument _ _ _ _ .hole)))))))
  have he : Yields (fun n => expr n e) t (.error (.returned (.int 2)), t) :=
    yields_expr (n := 5) rfl
  have hbody : Yields (fun n => block n body) ⟨⟨[("x", .int 3)], [[]]⟩, 1⟩
      (.error (.returned (.int 3)), ⟨⟨[("x", .int 3)], [[]]⟩, 1⟩) :=
    .of_runIn (fun k => (deeperAt k).block _) (n := 20) rfl
  obtain ⟨hcontext, hprogram, hcall, hbad⟩ := first_abrupt_decides
  refine ⟨hcontext .block C C' s t t e _ hC hC' he, ?_, ?_, ?_⟩
  · obtain ⟨w, hw, hrest⟩ := hprogram C s t t e _ hC he
    exact ⟨w, hw, hrest C' hC'⟩
  · exact hcall (.ident "f") [.int 3] 0 ["x"] body .empty _ [.int 3] (.int 3) s s s _
      (yields_expr (n := 5) rfl) (.of_runIn (fun k => (deeperAt k).exprs _) (n := 5) rfl) rfl rfl
      hbody
  · exact hbad (.int 5) [e] (.int 5) s s (yields_expr (n := 5) rfl) (by decide)

end Eval

end Monkey

import Monkey.Proofs.Evaluation.Frame
import Monkey.Proofs.Evaluation.Operators

/-! # The faults of evaluation

Whatever is evaluated, and in whatever session, the faults that come up are faults of the
stage of evaluation: operators, names, calls and conditions have no others.
-/

namespace Monkey

theorem Fault.OfOperator.stage {e : Fault} (h : e.OfOperator) : e.stage = .evaluation := by
  cases e <;> first | rfl | exact h.elim

namespace Eval

variable {α β : Type}

/-- Whether `x` has no faults but those of evaluation. -/
def OwnFaults (x : Eval α) : Prop :=
  ∀ s, Ensures x s fun r _ => ∀ e, r = .error (.fault e) → e.stage = .evaluation

namespace OwnFaults

variable {x : Eval α} {f : α → Eval β}

theorem tooDeep : OwnFaults (tooDeep : Eval α) := fun _ => .tooDeep

theorem pure (a : α) : OwnFaults (Pure.pure a : Eval α) := fun _ => .pure nofun

theorem fail {e : Fault} (h : e.stage = .evaluation) : OwnFaults (fail e : Eval α) := by
  intro s
  apply Ensures.fail
  rintro _ ⟨⟩
  exact h

theorem returning (v : Value) : OwnFaults (returning v : Eval α) := fun _ => .returning nofun

theorem ofExcept {r : Except Fault α} (h : ∀ e, r = .error e → e.stage = .evaluation) :
    OwnFaults (ofExcept r) := by
  intro s
  apply Ensures.ofExcept
  cases r with
  | ok a => exact nofun
  | error e =>
    rintro _ ⟨⟩
    exact h e rfl

theorem ofOperator {r : Except Fault Value} (h : IsOperatorResult r) :
    OwnFaults (Eval.ofExcept r) := by
  apply ofExcept
  rintro e rfl
  exact Fault.OfOperator.stage h

theorem bind (hx : OwnFaults x) (hf : ∀ a, OwnFaults (f a)) : OwnFaults (x >>= f) := by
  intro s
  refine (hx s).bind ?_ ?_
  · exact fun a t _ => hf a t
  · rintro a t h e ⟨⟩
    exact h e rfl

theorem lookup (name : String) : OwnFaults (lookup name) := by
  rintro s r t hr e rfl
  rw [runIn_lookup, Environment.get] at hr
  cases hv : s.env.get? name with
  | none =>
    rw [hv] at hr
    cases hr
    rfl
  | some v =>
    rw [hv] at hr
    cases hr

theorem define (name : String) (v : Value) : OwnFaults (define name v) := by
  intro s
  apply Ensures.define
  · exact fun _ _ => nofun
  · rintro e ⟨⟩
    rfl

theorem makeFunction (params : List String) (body : Block) :
    OwnFaults (makeFunction params body) := by
  rintro s r t hr e rfl
  rw [runIn_makeFunction] at hr
  cases hr

theorem inScope (h : OwnFaults x) : OwnFaults (inScope x) := fun _ => .inScope (h _)

theorem within (env : Environment Value) (h : OwnFaults x) : OwnFaults (within env x) :=
  fun _ => .within (h _)

theorem landing {x : Eval Value} (h : OwnFaults x) : OwnFaults (landing x) := by
  intro s
  refine (h s).landing ?_ ?_ ?_
  · exact fun _ _ _ => nofun
  · exact fun _ _ _ => nofun
  · rintro e t he _ ⟨⟩
    exact he e rfl

theorem committing (h : OwnFaults x) : OwnFaults (committing x) := by
  intro s
  have hfault := h { s with env := s.env.enter }
  refine .committing hfault (hfault.imp ?_)
  rintro r t hr e he _ ⟨⟩
  exact hr e he

end OwnFaults

/-- That the rules of evaluation have no other faults, when `n` nested rules may start. -/
structure OwnFaultsAt (n : Nat) : Prop where
  expr (e : Expr) : OwnFaults (expr n e)
  exprs (es : List Expr) : OwnFaults (exprs n es)
  stmt (st : Stmt) : OwnFaults (stmt n st)
  stmts (v : Value) (ss : List Stmt) : OwnFaults (stmts n v ss)
  block (b : Block) : OwnFaults (block n b)
  call (params : List String) (body : Block) (captured : Environment Value) (args : List Value) :
    OwnFaults (call n params body captured args)

variable {n : Nat}

theorem ownFaults_expr_succ (ih : OwnFaultsAt n) (e : Expr) : OwnFaults (expr (n + 1) e) := by
  cases e with
  | ident name => exact .lookup name
  | int n => exact .pure _
  | str s => exact .pure _
  | bool b => exact .pure _
  | unary op operand =>
    exact (ih.expr operand).bind fun v => .ofOperator (op.apply_isOperatorResult v)
  | binary op left right =>
    apply (ih.expr left).bind
    intro v
    exact (ih.expr right).bind fun w => .ofOperator (op.apply_isOperatorResult v w)
  | cond condition consequence alternative =>
    apply (ih.expr condition).bind
    intro v
    split
    · exact ih.block _
    · exact ih.block _
    · exact .pure _
    · exact .fail rfl
  | fn params body => exact .makeFunction params body
  | call callee args =>
    apply (ih.expr callee).bind
    intro v
    split
    · exact (ih.exprs args).bind fun vs => ih.call _ _ _ _
    · exact .fail rfl

theorem ownFaults_exprs_succ (ih : OwnFaultsAt n) (es : List Expr) :
    OwnFaults (exprs (n + 1) es) := by
  cases es with
  | nil => exact .pure _
  | cons e es => exact (ih.expr e).bind fun v => (ih.exprs es).bind fun vs => .pure _

theorem ownFaults_stmt_succ (ih : OwnFaultsAt n) (st : Stmt) : OwnFaults (stmt (n + 1) st) := by
  cases st with
  | bind name value =>
    exact (ih.expr value).bind fun v => (OwnFaults.define name v).bind fun _ => .pure v
  | ret value => exact (ih.expr value).bind fun v => .returning v
  | expr value => exact ih.expr value

theorem ownFaults_stmts_succ (ih : OwnFaultsAt n) (v : Value) (ss : List Stmt) :
    OwnFaults (stmts (n + 1) v ss) := by
  cases ss with
  | nil => exact .pure v
  | cons st ss => exact (ih.stmt st).bind fun w => ih.stmts w ss

theorem ownFaults_call_succ (ih : OwnFaultsAt n) (params : List String) (body : Block)
    (captured : Environment Value) (args : List Value) :
    OwnFaults (call (n + 1) params body captured args) := by
  unfold call
  split
  · have hdefine : OwnFaults (ofExcept (captured.enter.defineAll (params.zip args))) := by
      apply OwnFaults.ofExcept
      intro e he
      obtain ⟨name, rfl⟩ := Environment.defineAll_eq_error he
      rfl
    exact hdefine.bind fun env => .within env (.landing (ih.block body))
  · exact .fail rfl

theorem ownFaultsAt (n : Nat) : OwnFaultsAt n := by
  induction n with
  | zero =>
    exact ⟨fun _ => .tooDeep, fun _ => .tooDeep, fun _ => .tooDeep, fun _ _ => .tooDeep,
      fun _ => .tooDeep, fun _ _ _ _ => .tooDeep⟩
  | succ n ih =>
    exact ⟨ownFaults_expr_succ ih, ownFaults_exprs_succ ih, ownFaults_stmt_succ ih,
      ownFaults_stmts_succ ih, fun b => .inScope (ih.stmts .null b), ownFaults_call_succ ih⟩

theorem ownFaults_program (n : Nat) (p : Program) : OwnFaults (program n p) :=
  .committing ((ownFaultsAt n).stmts .null p)

end Eval

/-- A program that was parsed fails in the stage of evaluation only. -/
theorem Session.stage_of_execute {n : Nat} {p : Program} {s t : Session} {e : Fault}
    (h : s.execute n p = some (.error e, t)) : e.stage = .evaluation := by
  obtain ⟨⟨r, u⟩, hrun, hend⟩ := Option.map_eq_some_iff.1 h
  rcases r with (v | e') | v <;> cases hend
  exact Eval.ownFaults_program n p s _ _ hrun e rfl

end Monkey

import Monkey.Session

/-! # Depth makes no difference to an evaluation that ends

An evaluation that ends at some depth ends in the same way at every greater
depth, so the depths of two evaluations can always be raised to a common one.
-/

namespace Monkey.Eval

variable {α β : Type}

/-- Wherever `x` ends, `y` ends in the same way. -/
def Refines (x y : Eval α) : Prop :=
  ∀ s o, x.runIn s = some o → y.runIn s = some o

namespace Refines

variable {x y z : Eval α} {f g : α → Eval β}

theorem refl (x : Eval α) : Refines x x := fun _ _ h => h

theorem trans (hxy : Refines x y) (hyz : Refines y z) : Refines x z :=
  fun s o h => hyz s o (hxy s o h)

theorem tooDeep : Refines tooDeep y := by
  intro s o h
  simp at h

theorem bind (hx : Refines x y) (hf : ∀ a, Refines (f a) (g a)) :
    Refines (x >>= f) (y >>= g) := by
  intro s o h
  rw [runIn_bind] at h ⊢
  obtain ⟨⟨r, t⟩, hr, hrest⟩ := Option.bind_eq_some_iff.1 h
  rw [hx s _ hr]
  cases r with
  | ok a => exact hf a t o hrest
  | error e => exact hrest

theorem inScope (hx : Refines x y) : Refines (inScope x) (inScope y) := by
  intro s o h
  rw [runIn_inScope] at h ⊢
  obtain ⟨p, hp, hrest⟩ := Option.map_eq_some_iff.1 h
  rw [hx _ _ hp]
  exact congrArg some hrest

theorem within (env : Environment Value) (hx : Refines x y) :
    Refines (within env x) (within env y) := by
  intro s o h
  rw [runIn_within] at h ⊢
  obtain ⟨p, hp, hrest⟩ := Option.map_eq_some_iff.1 h
  rw [hx _ _ hp]
  exact congrArg some hrest

theorem landing {x y : Eval Value} (hx : Refines x y) : Refines (landing x) (landing y) := by
  intro s o h
  rw [runIn_landing] at h ⊢
  obtain ⟨p, hp, hrest⟩ := Option.map_eq_some_iff.1 h
  rw [hx _ _ hp]
  exact congrArg some hrest

theorem committing (hx : Refines x y) : Refines (committing x) (committing y) := by
  intro s o h
  rw [runIn_committing] at h ⊢
  obtain ⟨p, hp, hrest⟩ := Option.map_eq_some_iff.1 h
  rw [hx _ _ hp]
  exact congrArg some hrest

end Refines

/-- One more nested rule makes no difference to what ends when `n` may start. -/
structure DeeperAt (n : Nat) : Prop where
  expr (e : Expr) : Refines (expr n e) (expr (n + 1) e)
  exprs (es : List Expr) : Refines (exprs n es) (exprs (n + 1) es)
  stmt (s : Stmt) : Refines (stmt n s) (stmt (n + 1) s)
  stmts (v : Value) (ss : List Stmt) : Refines (stmts n v ss) (stmts (n + 1) v ss)
  block (b : Block) : Refines (block n b) (block (n + 1) b)
  call (params : List String) (body : Block) (captured : Environment Value) (args : List Value) :
    Refines (call n params body captured args) (call (n + 1) params body captured args)

theorem deeper_expr_succ {n : Nat} (ih : DeeperAt n) (e : Expr) :
    Refines (expr (n + 1) e) (expr (n + 2) e) := by
  cases e with
  | ident name => exact .refl _
  | int n => exact .refl _
  | str s => exact .refl _
  | bool b => exact .refl _
  | unary op operand => exact (ih.expr operand).bind fun _ => .refl _
  | binary op left right =>
    exact (ih.expr left).bind fun _ => (ih.expr right).bind fun _ => .refl _
  | cond condition consequence alternative =>
    apply (ih.expr condition).bind
    intro v
    split
    · exact ih.block _
    · exact ih.block _
    · exact .refl _
    · exact .refl _
  | fn params body => exact .refl _
  | call callee args =>
    apply (ih.expr callee).bind
    intro v
    cases v with
    | function _ params body captured =>
      exact (ih.exprs args).bind fun vs => ih.call params body captured vs
    | _ => exact .refl _

theorem deeper_exprs_succ {n : Nat} (ih : DeeperAt n) (es : List Expr) :
    Refines (exprs (n + 1) es) (exprs (n + 2) es) := by
  cases es with
  | nil => exact .refl _
  | cons e es => exact (ih.expr e).bind fun _ => (ih.exprs es).bind fun _ => .refl _

theorem deeper_stmt_succ {n : Nat} (ih : DeeperAt n) (s : Stmt) :
    Refines (stmt (n + 1) s) (stmt (n + 2) s) := by
  cases s with
  | bind name value => exact (ih.expr value).bind fun _ => .refl _
  | ret value => exact (ih.expr value).bind fun _ => .refl _
  | expr value => exact ih.expr value

theorem deeper_stmts_succ {n : Nat} (ih : DeeperAt n) (v : Value) (ss : List Stmt) :
    Refines (stmts (n + 1) v ss) (stmts (n + 2) v ss) := by
  cases ss with
  | nil => exact .refl _
  | cons s ss => exact (ih.stmt s).bind fun w => ih.stmts w ss

theorem deeper_call_succ {n : Nat} (ih : DeeperAt n) (params : List String) (body : Block)
    (captured : Environment Value) (args : List Value) :
    Refines (call (n + 1) params body captured args) (call (n + 2) params body captured args) := by
  unfold call
  split
  · exact (Refines.refl _).bind fun env => .within env (.landing (ih.block body))
  · exact .refl _

theorem deeperAt (n : Nat) : DeeperAt n := by
  induction n with
  | zero =>
    exact ⟨fun _ => .tooDeep, fun _ => .tooDeep, fun _ => .tooDeep, fun _ _ => .tooDeep,
      fun _ => .tooDeep, fun _ _ _ _ => .tooDeep⟩
  | succ n ih =>
    exact ⟨deeper_expr_succ ih, deeper_exprs_succ ih, deeper_stmt_succ ih, deeper_stmts_succ ih,
      fun b => .inScope (ih.stmts .null b), deeper_call_succ ih⟩

/-- What ends at some depth ends in the same way at every greater depth. -/
theorem Refines.of_le {x : Nat → Eval α} (hx : ∀ n, Refines (x n) (x (n + 1))) {m n : Nat}
    (h : m ≤ n) : Refines (x m) (x n) := by
  induction h with
  | refl => exact .refl _
  | step _ ih => exact ih.trans (hx _)

/-- The depth has no say in how an evaluation ends. -/
theorem Refines.unique {x : Nat → Eval α} (hx : ∀ n, Refines (x n) (x (n + 1))) {m n : Nat}
    {s : Session} {o o' : Except Abrupt α × Session} (h : (x m).runIn s = some o)
    (h' : (x n).runIn s = some o') : o = o' := by
  have hm := of_le hx (Nat.le_max_left m n) s o h
  have hn := of_le hx (Nat.le_max_right m n) s o' h'
  exact Option.some.inj (hm.symm.trans hn)

theorem expr_unique {m n : Nat} {e : Expr} {s : Session} {o o' : Outcome × Session}
    (h : (expr m e).runIn s = some o) (h' : (expr n e).runIn s = some o') : o = o' :=
  Refines.unique (fun k => (deeperAt k).expr e) h h'

theorem stmts_refines {m n : Nat} (h : m ≤ n) (v : Value) (ss : List Stmt) :
    Refines (stmts m v ss) (stmts n v ss) :=
  .of_le (fun k => (deeperAt k).stmts v ss) h

theorem program_refines {m n : Nat} (h : m ≤ n) (p : Program) :
    Refines (program m p) (program n p) :=
  (stmts_refines h .null p).committing

end Monkey.Eval

namespace Monkey.Session

theorem execute_mono {s : Session} {p : Program} {m n : Nat} {o : Except Fault Value × Session}
    (hmn : m ≤ n) (h : s.execute m p = some o) : s.execute n p = some o := by
  obtain ⟨u, hu, hrest⟩ := Option.map_eq_some_iff.1 h
  unfold execute
  rw [Eval.program_refines hmn p s u hu]
  exact congrArg some hrest

/-- The depth has no say in how the execution of a program ends. -/
theorem execute_unique {s : Session} {p : Program} {m n : Nat}
    {o o' : Except Fault Value × Session} (h : s.execute m p = some o)
    (h' : s.execute n p = some o') : o = o' := by
  have hm := execute_mono (Nat.le_max_left m n) h
  have hn := execute_mono (Nat.le_max_right m n) h'
  exact Option.some.inj (hm.symm.trans hn)

end Monkey.Session

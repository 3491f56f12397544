import Monkey.Proofs.Evaluation.Frame

/-! # The functions that an evaluation makes

Every evaluation of a function literal makes a function. What an evaluation makes on its
way is listed in order, whether it goes on, returns early or fails in the end: a list is
as long as literals were evaluated. The identities in it follow one another without a
gap, from the next identity of the session before up to that of the session after.
-/

namespace Monkey.Eval

variable {α β : Type}

/-- What is made by `x`, which makes `fs`, and then by what goes on from its value. -/
def following (x : Eval α) (fs : Session → List Value) (gs : α → Session → List Value)
    (s : Session) : List Value :=
  fs s ++ match x.runIn s with
    | some (.ok a, t) => gs a t
    | _ => []

@[simp] theorem following_nil (x : Eval α) (fs : Session → List Value) :
    following x fs (fun _ _ => []) = fs := by
  funext s
  unfold following
  split <;> simp

namespace Made

mutual

/-- What an expression makes. -/
def expr : Nat → Expr → Session → List Value
  | 0, _ => fun _ => []
  | depth + 1, e =>
    match e with
    | .ident _ | .int _ | .str _ | .bool _ => fun _ => []
    | .unary _ operand => expr depth operand
    | .binary _ left right =>
      following (Eval.expr depth left) (expr depth left) fun _ => expr depth right
    | .cond condition consequence alternative =>
      following (Eval.expr depth condition) (expr depth condition) fun v =>
        match v, alternative with
        | .bool true, _ => block depth consequence
        | .bool false, some alternative => block depth alternative
        | _, _ => fun _ => []
    | .fn params body => following (makeFunction params body) (fun _ => []) fun v _ => [v]
    | .call callee args =>
      following (Eval.expr depth callee) (expr depth callee) fun v =>
        match v with
        | .function _ params body captured =>
          following (Eval.exprs depth args) (exprs depth args) (call depth params body captured)
        | _ => fun _ => []

/-- What several expressions make. -/
def exprs : Nat → List Expr → Session → List Value
  | 0, _ => fun _ => []
  | _ + 1, [] => fun _ => []
  | depth + 1, e :: es => following (Eval.expr depth e) (expr depth e) fun _ => exprs depth es

/-- What a statement makes. -/
def stmt : Nat → Stmt → Session → List Value
  | 0, _ => fun _ => []
  | depth + 1, s =>
    match s with
    | .bind _ value | .ret value | .expr value => expr depth value

/-- What several statements make. -/
def stmts : Nat → List Stmt → Session → List Value
  | 0, _ => fun _ => []
  | _ + 1, [] => fun _ => []
  | depth + 1, s :: ss => following (Eval.stmt depth s) (stmt depth s) fun _ => stmts depth ss

/-- What a block makes. -/
def block : Nat → Block → Session → List Value
  | 0, _ => fun _ => []
  | depth + 1, b => fun s => stmts depth b { s with env := s.env.enter }

/-- What the body of a function makes. -/
def call : Nat → List String → Block → Environment Value → List Value → Session → List Value
  | 0, _, _, _, _ => fun _ => []
  | depth + 1, params, body, captured, args => fun s =>
    if params.length = args.length then
      match captured.enter.defineAll (params.zip args) with
      | .ok env => block depth body { s with env }
      | .error _ => []
    else []

end

end Made

/-! ## Consecutive identities -/

/-- Whether functions have the identities from `first` on, in order and up to `last`. -/
inductive Numbered : Nat → List Value → Nat → Prop
  | nil (first : Nat) : Numbered first [] first
  | cons {first last : Nat} {params : List String} {body : Block} {captured : Environment Value}
      {fs : List Value} : Numbered (first + 1) fs last →
      Numbered first (.function first params body captured :: fs) last

namespace Numbered

variable {first middle last : Nat} {fs gs : List Value}

theorem append (hfs : Numbered first fs middle) (hgs : Numbered middle gs last) :
    Numbered first (fs ++ gs) last := by
  induction hfs with
  | nil => exact hgs
  | cons _ ih => exact .cons (ih hgs)

/-- The place of a function tells its identity. -/
theorem exists_of_getElem? (h : Numbered first fs last) {k : Nat} {v : Value}
    (hk : fs[k]? = some v) : ∃ params body captured,
      v = .function (first + k) params body captured := by
  induction h generalizing k with
  | nil => simp at hk
  | @cons first _ params body captured fs _ ih =>
    cases k with
    | zero =>
      obtain rfl := Option.some.inj hk
      exact ⟨params, body, captured, rfl⟩
    | succ k =>
      rw [← Nat.succ_add_eq_add_succ first k]
      exact ih hk

/-- Two functions in different places differ, and have different identities. -/
theorem eq_of_same (h : Numbered first fs last) {j k : Nat} {v w : Value}
    (hj : fs[j]? = some v) (hk : fs[k]? = some w) (hvw : (v == w) = true) : j = k := by
  obtain ⟨_, _, _, rfl⟩ := h.exists_of_getElem? hj
  obtain ⟨_, _, _, rfl⟩ := h.exists_of_getElem? hk
  exact Nat.add_left_cancel (beq_iff_eq.1 hvw)

end Numbered

/-- However `x` ends, what it makes takes up the identities between the two sessions. -/
def Numbers (x : Eval α) (fs : Session → List Value) : Prop :=
  ∀ s, Ensures x s fun _ t => Numbered s.nextId (fs s) t.nextId

namespace Numbers

variable {x : Eval α} {f : α → Eval β} {fs : Session → List Value}
  {gs : α → Session → List Value}

theorem tooDeep : Numbers (tooDeep : Eval α) fs := fun _ => .tooDeep

theorem pure (a : α) : Numbers (Pure.pure a : Eval α) fun _ => [] := fun _ => .pure (.nil _)

theorem fail (e : Fault) : Numbers (fail e : Eval α) fun _ => [] := fun _ => .fail (.nil _)

theorem returning (v : Value) : Numbers (returning v : Eval α) fun _ => [] := fun _ => .returning (.nil _)

theorem ofExcept (r : Except Fault α) : Numbers (ofExcept r) fun _ => [] :=
  fun _ => .ofExcept (.nil _)

theorem bind (hx : Numbers x fs) (hf : ∀ a, Numbers (f a) (gs a)) :
    Numbers (x >>= f) (following x fs gs) := by
  intro s r u hr
  rw [runIn_bind] at hr
  obtain ⟨⟨e | a, t⟩, hrun, hr⟩ := Option.bind_eq_some_iff.1 hr
  · cases hr
    simp only [following, hrun, List.append_nil]
    exact hx s _ _ hrun
  · simp only [following, hrun]
    exact (hx s _ _ hrun).append (hf a t r u hr)

/-- What goes on from a value without making anything. -/
theorem bind_of_none (hx : Numbers x fs) (hf : ∀ a, Numbers (f a) fun _ => []) :
    Numbers (x >>= f) fs := by
  have h : Numbers (x >>= f) (following x fs fun _ _ => []) := hx.bind hf
  rwa [following_nil] at h

theorem lookup (name : String) : Numbers (lookup name) fun _ => [] := by
  intro s r t hr
  rw [runIn_lookup] at hr
  cases hr
  exact .nil _

theorem define (name : String) (v : Value) : Numbers (define name v) fun _ => [] :=
  fun _ => .define (fun _ _ => .nil _) (.nil _)

theorem makeFunction (params : List String) (body : Block) :
    Numbers (makeFunction params body)
      (following (Eval.makeFunction params body) (fun _ => []) fun v _ => [v]) := by
  intro s r t hr
  rw [runIn_makeFunction] at hr
  cases hr
  exact .cons (.nil _)

theorem landing {x : Eval Value} (h : Numbers x fs) : Numbers (landing x) fs :=
  fun s => (h s).landing (fun _ _ h => h) (fun _ _ h => h) fun _ _ h => h

end Numbers

/-- What each rule makes takes up consecutive identities when `n` nested rules may start. -/
structure NumbersAt (n : Nat) : Prop where
  expr (e : Expr) : Numbers (expr n e) (Made.expr n e)
  exprs (es : List Expr) : Numbers (exprs n es) (Made.exprs n es)
  stmt (st : Stmt) : Numbers (stmt n st) (Made.stmt n st)
  stmts (v : Value) (ss : List Stmt) : Numbers (stmts n v ss) (Made.stmts n ss)
  block (b : Block) : Numbers (block n b) (Made.block n b)
  call (params : List String) (body : Block) (captured : Environment Value) (args : List Value) :
    Numbers (call n params body captured args) (Made.call n params body captured args)

theorem numbers_expr_succ {n : Nat} (ih : NumbersAt n) (e : Expr) :
    Numbers (expr (n + 1) e) (Made.expr (n + 1) e) := by
  cases e with
  | ident name => exact .lookup name
  | int n => exact .pure _
  | str s => exact .pure _
  | bool b => exact .pure _
  | unary op operand => exact (ih.expr operand).bind_of_none fun v => .ofExcept _
  | binary op left right =>
    exact (ih.expr left).bind fun v => (ih.expr right).bind_of_none fun w => .ofExcept _
  | cond condition consequence alternative =>
    refine (ih.expr condition).bind fun v => ?_
    match v, alternative with
    | .bool true, _ => exact ih.block _
    | .bool false, some _ => exact ih.block _
    | .bool false, none => exact .pure _
    | .null, _ | .int _, _ | .str _, _ | .function .., _ => exact .fail _
  | fn params body => exact .makeFunction params body
  | call callee args =>
    refine (ih.expr callee).bind fun v => ?_
    cases v with
    | function id params body captured =>
      exact (ih.exprs args).bind fun vs => ih.call params body captured vs
    | _ => exact .fail _

theorem numbers_exprs_succ {n : Nat} (ih : NumbersAt n) (es : List Expr) :
    Numbers (exprs (n + 1) es) (Made.exprs (n + 1) es) := by
  cases es with
  | nil => exact .pure _
  | cons e es =>
    exact (ih.expr e).bind fun v => (ih.exprs es).bind_of_none fun vs => .pure _

theorem numbers_stmt_succ {n : Nat} (ih : NumbersAt n) (st : Stmt) :
    Numbers (stmt (n + 1) st) (Made.stmt (n + 1) st) := by
  cases st with
  | bind name value =>
    exact (ih.expr value).bind_of_none fun v => (Numbers.define name v).bind_of_none fun _ => .pure v
  | ret value => exact (ih.expr value).bind_of_none fun v => .returning v
  | expr value => exact ih.expr value

theorem numbers_stmts_succ {n : Nat} (ih : NumbersAt n) (v : Value) (ss : List Stmt) :
    Numbers (stmts (n + 1) v ss) (Made.stmts (n + 1) ss) := by
  cases ss with
  | nil => exact .pure v
  | cons st ss => exact (ih.stmt st).bind fun w => ih.stmts w ss

theorem numbers_call_succ {n : Nat} (ih : NumbersAt n) (params : List String) (body : Block)
    (captured : Environment Value) (args : List Value) :
    Numbers (call (n + 1) params body captured args) (Made.call (n + 1) params body captured args) := by
  intro s
  unfold call Made.call
  split
  · cases captured.enter.defineAll (params.zip args) with
    | ok env => exact .within ((ih.block body).landing _)
    | error e => exact .fail (.nil _)
  · exact .fail (.nil _)

theorem numbersAt (n : Nat) : NumbersAt n := by
  induction n with
  | zero =>
    exact ⟨fun _ => .tooDeep, fun _ => .tooDeep, fun _ => .tooDeep, fun _ _ => .tooDeep,
      fun _ => .tooDeep, fun _ _ _ _ => .tooDeep⟩
  | succ n ih =>
    exact ⟨numbers_expr_succ ih, numbers_exprs_succ ih, numbers_stmt_succ ih,
      numbers_stmts_succ ih, fun b _ => .inScope (ih.stmts .null b _), numbers_call_succ ih⟩

theorem numbers_program (n : Nat) (p : Program) :
    Numbers (program n p) fun s => Made.stmts n p { s with env := s.env.enter } := by
  intro s
  have h := (numbersAt n).stmts .null p { s with env := s.env.enter }
  exact .committing h (h.imp fun _ _ h _ _ => h)

end Monkey.Eval

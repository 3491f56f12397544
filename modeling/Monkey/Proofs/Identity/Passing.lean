import Mathlib.Logic.Function.Basic
import Monkey.Proofs.Evaluation.Invariant
import Monkey.Proofs.Session.Run
import Monkey.Proofs.Session.ScopeDepth

/-! # Handing a value on

Names, `let`, arguments, results, `return` and branches hand a value on as it is. Which
expressions do so with one value is told by roles, in the manner of types: an expression
that has the role of the value gives that value and no other, whatever else happens on
the way, and whichever branch is taken. Functions have roles too, so a value can go
through functions that were bound in earlier programs.
-/

namespace Monkey

/-- What a value is with regard to one value that is followed. -/
inductive Role
  /-- The value that is followed. -/
  | it
  | any
  /-- No value has this role. -/
  | never
  /-- A function that gives results of one role for arguments of others. -/
  | function (params : List Role) (result : Role)

/-- The role of each name. -/
abbrev Roles := String → Role

namespace Role

/-- Whether a value of one role can stand where the other is expected. -/
def Below (r r' : Role) : Prop :=
  r = r' ∨ r' = .any

end Role

namespace Roles

/-- One name stands for the value that is followed, and nothing is known of the others. -/
def only (x : String) : Roles :=
  fun y => if y = x then .it else .any

/-- The roles of names after several were bound, one after the other. -/
def assign (Γ : Roles) : List (String × Role) → Roles
  | [] => Γ
  | (x, r) :: bs => assign (Function.update Γ x r) bs

/-- The roles of names when nothing is known any more of some. -/
def without (Γ : Roles) (names : List String) : Roles :=
  fun x => if x ∈ names then .any else Γ x

end Roles

mutual

/-- Whether an expression has a role. Values that it returns early have the role `ρ`. -/
inductive Expr.Has : Roles → Role → Expr → Role → Prop
  | ident {Γ : Roles} {ρ r : Role} {x : String} : (Γ x).Below r → Expr.Has Γ ρ (.ident x) r
  | int {Γ : Roles} {ρ : Role} {n : Integer} : Expr.Has Γ ρ (.int n) .any
  | str {Γ : Roles} {ρ : Role} {s : String} : Expr.Has Γ ρ (.str s) .any
  | bool {Γ : Roles} {ρ : Role} {b : Bool} : Expr.Has Γ ρ (.bool b) .any
  | unary {Γ : Roles} {ρ : Role} {op : UnaryOp} {operand : Expr} : Expr.Has Γ ρ operand .any →
      Expr.Has Γ ρ (.unary op operand) .any
  | binary {Γ : Roles} {ρ : Role} {op : BinaryOp} {left right : Expr} : Expr.Has Γ ρ left .any →
      Expr.Has Γ ρ right .any → Expr.Has Γ ρ (.binary op left right) .any
  | cond {Γ Γ₁ Γ₂ : Roles} {ρ r : Role} {condition : Expr} {consequence alternative : Block} :
      Expr.Has Γ ρ condition .any → Block.Has Γ ρ .any consequence Γ₁ r →
      Block.Has Γ ρ .any alternative Γ₂ r → Expr.Has Γ ρ (.cond condition consequence alternative) r
  | condOnly {Γ Γ₁ : Roles} {ρ : Role} {condition : Expr} {consequence : Block} :
      Expr.Has Γ ρ condition .any → Block.Has Γ ρ .any consequence Γ₁ .any →
      Expr.Has Γ ρ (.cond condition consequence none) .any
  | literal {Γ Γ₁ : Roles} {ρ result : Role} {roles : List Role} {params : List String}
      {body : Block} : Block.Has (Γ.assign (params.zip roles)) result .any body Γ₁ result →
      Expr.Has Γ ρ (.fn params body) (.function roles result)
  | closure {Γ : Roles} {ρ : Role} {params : List String} {body : Block} :
      Expr.Has Γ ρ (.fn params body) .any
  | call {Γ : Roles} {ρ r result : Role} {roles : List Role} {callee : Expr} {args : List Expr} :
      Expr.Has Γ ρ callee (.function roles result) → Expr.AllHave Γ ρ args roles → result.Below r →
      Expr.Has Γ ρ (.call callee args) r
  | callAny {Γ : Roles} {ρ : Role} {roles : List Role} {callee : Expr} {args : List Expr} :
      Expr.Has Γ ρ callee .any → Expr.AllHave Γ ρ args roles → Expr.Has Γ ρ (.call callee args) .any

/-- Whether several expressions have roles, one each. -/
inductive Expr.AllHave : Roles → Role → List Expr → List Role → Prop
  | nil {Γ : Roles} {ρ : Role} : Expr.AllHave Γ ρ [] []
  | cons {Γ : Roles} {ρ r : Role} {rs : List Role} {e : Expr} {es : List Expr} :
      Expr.Has Γ ρ e r → Expr.AllHave Γ ρ es rs → Expr.AllHave Γ ρ (e :: es) (r :: rs)

/-- Whether a statement has a role, and the roles of names after it. -/
inductive Stmt.Has : Roles → Role → Stmt → Roles → Role → Prop
  | bind {Γ : Roles} {ρ r : Role} {x : String} {value : Expr} : Expr.Has Γ ρ value r →
      Stmt.Has Γ ρ (.bind x value) (Function.update Γ x r) r
  /-- Nothing goes on from a `return`. -/
  | ret {Γ : Roles} {ρ r : Role} {value : Expr} : Expr.Has Γ ρ value ρ →
      Stmt.Has Γ ρ (.ret value) Γ r
  | expr {Γ : Roles} {ρ r : Role} {value : Expr} : Expr.Has Γ ρ value r →
      Stmt.Has Γ ρ (.expr value) Γ r

/-- Whether statements have a role, when it is `q` without them, and the roles of names after them. -/
inductive Block.Has : Roles → Role → Role → List Stmt → Roles → Role → Prop
  | nil {Γ : Roles} {ρ q r : Role} : q.Below r → Block.Has Γ ρ q [] Γ r
  | cons {Γ Γ₁ Γ₂ : Roles} {ρ q q' r : Role} {st : Stmt} {ss : List Stmt} :
      Stmt.Has Γ ρ st Γ₁ q' → Block.Has Γ₁ ρ q' ss Γ₂ r → Block.Has Γ ρ q (st :: ss) Γ₂ r
  /-- What follows a statement without a value is never run. -/
  | left {Γ Γ₁ : Roles} {ρ q r : Role} {st : Stmt} {ss : List Stmt} :
      Stmt.Has Γ ρ st Γ₁ .never → Block.Has Γ ρ q (st :: ss) Γ r

end

/-- Whether a value has a role when `f` is followed. -/
inductive Role.Fits (f : Value) : Role → Value → Prop
  | it : Fits f .it f
  | any (v : Value) : Fits f .any v
  | function {Γ Γ₁ : Roles} {roles : List Role} {result : Role} {id : Nat} {params : List String}
      {body : List Stmt} {captured : Environment Value} :
      (∀ x v, captured.get? x = some v → Fits f (Γ x) v) →
      Block.Has (Γ.assign (params.zip roles)) result .any body Γ₁ result →
      Fits f (.function roles result) (.function id params body captured)

theorem Role.Fits.weaken {f v : Value} {r r' : Role} (h : r.Fits f v) (hr : r.Below r') :
    r'.Fits f v := by
  obtain rfl | rfl := hr
  · exact h
  · exact .any v

/-- Whether the values of all names have the roles of these. -/
def Environment.Fits (f : Value) (Γ : Roles) (e : Environment Value) : Prop :=
  ∀ x v, e.get? x = some v → (Γ x).Fits f v

namespace Environment.Fits

variable {f v : Value} {Γ : Roles} {e e' : Environment Value} {name : String} {r : Role}

theorem only (h : e.get? name = some f) : e.Fits f (.only name) := by
  intro x v hv
  unfold Roles.only
  split
  · next hx =>
    obtain rfl : f = v := Option.some.inj (h.symm.trans (hx ▸ hv))
    exact .it
  · exact .any v

theorem of_get?_eq (h : e.Fits f Γ) (he : ∀ x, e'.get? x = e.get? x) : e'.Fits f Γ :=
  fun x v hv => h x v (he x ▸ hv)

theorem define (h : e.Fits f Γ) (hv : r.Fits f v) (he : e.define name v = .ok e') :
    e'.Fits f (Function.update Γ name r) := by
  intro x w hw
  rw [Environment.get?_define he] at hw
  by_cases hx : x = name
  · subst hx
    rw [if_pos rfl] at hw
    obtain rfl := Option.some.inj hw
    rwa [Function.update_self]
  · rw [if_neg hx] at hw
    rw [Function.update_of_ne hx]
    exact h x w hw

theorem defineAll {params : List String} {args : List Value} {roles : List Role}
    (h : e.Fits f Γ) (hargs : List.Forall₂ (Role.Fits f) roles args)
    (he : e.defineAll (params.zip args) = .ok e') : e'.Fits f (Γ.assign (params.zip roles)) := by
  induction hargs generalizing params e Γ with
  | nil =>
    rw [List.zip_nil_right] at he ⊢
    cases he
    exact h
  | cons hv _ ih =>
    cases params with
    | nil =>
      cases he
      exact h
    | cons x params =>
      obtain ⟨e₁, hd, hrest⟩ := Environment.defineAll_cons_eq_ok_iff.1 he
      exact ih (h.define hv hd) hrest

end Environment.Fits

namespace Eval

variable {α : Type} {f : Value} {Γ Γ' : Roles} {ρ q r : Role} {env : Environment Value} {n : Nat}

/-- Values that an evaluation returns early have the role `ρ`, and its own value satisfies `Good`. -/
abbrev Hands (f : Value) (ρ : Role) (x : Eval α) (env : Environment Value)
    (Good : α → Prop) : Prop :=
  Upholds (Role.Fits f ρ) (fun _ => True) x env Good

namespace Hands

theorem ofExcept (a : Except Fault Value) : Hands f ρ (ofExcept a) env (Role.Fits f .any) := by
  refine fun _ _ => .ofExcept ?_
  cases a with
  | ok v => exact .any v
  | error e => trivial

theorem lookup {x : String} (henv : env.Fits f Γ) (hr : (Γ x).Below r) :
    Hands f ρ (lookup x) env (Role.Fits f r) := by
  rintro s rfl o t ho
  rw [runIn_lookup, Environment.get] at ho
  cases hv : s.env.get? x with
  | none =>
    rw [hv] at ho
    cases ho
    trivial
  | some v =>
    rw [hv] at ho
    cases ho
    exact (henv x v hv).weaken hr

theorem makeFunction {params : List String} {body : Block}
    (h : ∀ id, r.Fits f (.function id params body env)) :
    Hands f ρ (makeFunction params body) env (Role.Fits f r) := by
  rintro s rfl o t ho
  rw [runIn_makeFunction] at ho
  cases ho
  exact h s.nextId

theorem weaken {x : Eval Value} (h : Hands f ρ x env (Role.Fits f q)) (hr : q.Below r) :
    Hands f ρ x env (Role.Fits f r) := by
  refine fun s hs => (h s hs).imp ?_
  rintro (a | v) t ho
  · exact ho.error
  · exact ho.weaken hr

end Hands

/-- Whether an outcome has a role, and the environment has the roles `Γ` if the outcome is a value. -/
def HandsEnd (f : Value) (ρ : Role) (Γ : Roles) (r : Role) (o : Outcome) (t : Session) : Prop :=
  Upheld (Role.Fits f ρ) (fun _ => True) (Role.Fits f r) o ∧ ∀ v, o = .ok v → t.env.Fits f Γ

/-- What each rule hands on when `n` nested rules may start. -/
structure HandsAt (f : Value) (n : Nat) : Prop where
  expr {Γ : Roles} {ρ r : Role} {e : Expr} {env : Environment Value} : env.Fits f Γ →
    e.Has Γ ρ r → Hands f ρ (expr n e) env (Role.Fits f r)
  exprs {Γ : Roles} {ρ : Role} {rs : List Role} {es : List Expr} {env : Environment Value} :
    env.Fits f Γ → Expr.AllHave Γ ρ es rs →
    Hands f ρ (exprs n es) env (List.Forall₂ (Role.Fits f) rs)
  stmt {Γ Γ' : Roles} {ρ r : Role} {st : Stmt} {s : Session} : s.env.Fits f Γ →
    st.Has Γ ρ Γ' r → Ensures (stmt n st) s (HandsEnd f ρ Γ' r)
  stmts {Γ Γ' : Roles} {ρ q r : Role} {v : Value} {ss : List Stmt} {s : Session} :
    s.env.Fits f Γ → q.Fits f v → Block.Has Γ ρ q ss Γ' r →
    Ensures (stmts n v ss) s (HandsEnd f ρ Γ' r)
  block {Γ Γ' : Roles} {ρ r : Role} {b : Block} {env : Environment Value} : env.Fits f Γ →
    Block.Has Γ ρ .any b Γ' r → Hands f ρ (block n b) env (Role.Fits f r)
  call {Γ Γ' : Roles} {ρ result : Role} {roles : List Role} {params : List String} {body : Block}
    {captured env : Environment Value} {args : List Value} : captured.Fits f Γ →
    Block.Has (Γ.assign (params.zip roles)) result .any body Γ' result →
    List.Forall₂ (Role.Fits f) roles args →
    Hands f ρ (call n params body captured args) env (Role.Fits f result)

/-- A call returns nothing early, whatever the function is. -/
theorem hands_call (n : Nat) (params : List String) (body : Block) (captured : Environment Value)
    (args : List Value) : Hands f ρ (call n params body captured args) env (Role.Fits f .any) := by
  have hany {x : Eval Value} {env : Environment Value} :
      Upholds (Role.Fits f .any) (fun _ => True) x env (Role.Fits f .any) := by
    rintro s - ((v | e) | v) t -
    · exact .any v
    · trivial
    · exact .any v
  cases n with
  | zero => exact .tooDeep
  | succ n =>
    unfold call
    split
    · cases captured.enter.defineAll (params.zip args) with
      | error e => exact .fail trivial
      | ok inner => exact .within (.landing hany)
    · exact .fail trivial

theorem hands_cond (ih : HandsAt f n) {condition : Expr} {consequence : Block}
    {alternative : Option Block} (henv : env.Fits f Γ) (hcond : condition.Has Γ ρ .any)
    (hcons : ∃ Γ', Block.Has Γ ρ .any consequence Γ' r)
    (halt : ∀ b ∈ alternative, ∃ Γ', Block.Has Γ ρ .any b Γ' r) (hnone : alternative = none → r = .any) :
    Hands f ρ (expr (n + 1) (.cond condition consequence alternative)) env (Role.Fits f r) := by
  refine (ih.expr henv hcond).bind ((framesAt n).expr condition) fun v _ => ?_
  obtain ⟨_, hcons⟩ := hcons
  match v, alternative with
  | .bool true, _ => exact ih.block henv hcons
  | .bool false, some b =>
    obtain ⟨_, halt⟩ := halt b rfl
    exact ih.block henv halt
  | .bool false, none =>
    rw [hnone rfl]
    exact .pure (.any _)
  | .null, _ | .int _, _ | .str _, _ | .function .., _ => exact .fail trivial

theorem hands_expr_succ (ih : HandsAt f n) {e : Expr} (henv : env.Fits f Γ) (he : e.Has Γ ρ r) :
    Hands f ρ (expr (n + 1) e) env (Role.Fits f r) := by
  have hframe := framesAt n
  cases he with
  | ident hr => exact .lookup henv hr
  | int => exact .pure (.any _)
  | str => exact .pure (.any _)
  | bool => exact .pure (.any _)
  | unary he => exact (ih.expr henv he).bind (hframe.expr _) fun v _ => Hands.ofExcept _
  | binary hl hr =>
    refine (ih.expr henv hl).bind (hframe.expr _) fun v _ => ?_
    exact (ih.expr henv hr).bind (hframe.expr _) fun w _ => Hands.ofExcept _
  | cond hc hb ha =>
    refine hands_cond ih henv hc ⟨_, hb⟩ ?_ nofun
    rintro b ⟨⟩
    exact ⟨_, ha⟩
  | condOnly hc hb => exact hands_cond ih henv hc ⟨_, hb⟩ nofun fun _ => rfl
  | literal hb => exact .makeFunction fun id => .function henv hb
  | closure => exact .makeFunction fun id => .any _
  | call hcallee hargs hr =>
    refine (ih.expr henv hcallee).bind (hframe.expr _) fun v hv => ?_
    cases hv with
    | function hcaptured hbody =>
      refine (ih.exprs henv hargs).bind (hframe.exprs _) fun vs hvs => ?_
      exact (ih.call hcaptured hbody hvs).weaken hr
  | callAny hcallee hargs =>
    refine (ih.expr henv hcallee).bind (hframe.expr _) fun v _ => ?_
    cases v with
    | function id params body captured =>
      refine (ih.exprs henv hargs).bind (hframe.exprs _) fun vs _ => ?_
      exact hands_call n params body captured vs
    | _ => exact .fail trivial

theorem hands_exprs_succ (ih : HandsAt f n) {es : List Expr} {rs : List Role}
    (henv : env.Fits f Γ) (hes : Expr.AllHave Γ ρ es rs) :
    Hands f ρ (exprs (n + 1) es) env (List.Forall₂ (Role.Fits f) rs) := by
  have hframe := framesAt n
  cases hes with
  | nil => exact .pure .nil
  | cons he hes =>
    refine (ih.expr henv he).bind (hframe.expr _) fun v hv => ?_
    exact (ih.exprs henv hes).bind (hframe.exprs _) fun vs hvs => .pure (.cons hv hvs)

theorem hands_stmt_succ (ih : HandsAt f n) {st : Stmt} {s : Session} (henv : s.env.Fits f Γ)
    (hst : st.Has Γ ρ Γ' r) : Ensures (stmt (n + 1) st) s (HandsEnd f ρ Γ' r) := by
  have hvalue {value : Expr} {q : Role} (h : value.Has Γ ρ q) : Ensures (expr n value) s
      fun o t => t.env = s.env ∧ Upheld (Role.Fits f ρ) (fun _ => True) (Role.Fits f q) o :=
    ((framesAt n).expr value s).and (ih.expr henv h s rfl)
  cases hst with
  | @bind _ _ _ name _ he =>
    refine (hvalue he).bind ?_ fun a t h => ⟨h.2.error, nofun⟩
    rintro v t ⟨ht, hv⟩
    have hdefine : Ensures (define name v) t fun o u => Upheld (Role.Fits f ρ) (fun _ => True)
        (fun _ => u.env.Fits f (Function.update Γ name r)) o :=
      .define (fun _ hd => Environment.Fits.define (ht ▸ henv) hv hd) trivial
    exact hdefine.bind (fun _ u hu => .pure ⟨hv, fun _ _ => hu⟩) fun a u hu => ⟨hu.error, nofun⟩
  | ret he =>
    exact (hvalue he).bind (fun v t h => .returning ⟨h.2, nofun⟩) fun a t h => ⟨h.2.error, nofun⟩
  | expr he =>
    refine (hvalue he).imp fun o t h => ⟨h.2, fun v hv => ?_⟩
    rw [h.1]
    exact henv

theorem hands_stmts_succ (ih : HandsAt f n) {v : Value} {ss : List Stmt} {s : Session}
    (henv : s.env.Fits f Γ) (hv : q.Fits f v) (hss : Block.Has Γ ρ q ss Γ' r) :
    Ensures (stmts (n + 1) v ss) s (HandsEnd f ρ Γ' r) := by
  cases hss with
  | nil hr => exact .pure ⟨hv.weaken hr, fun _ _ => henv⟩
  | cons hst hss =>
    refine (ih.stmt henv hst).bind ?_ fun a t h => ⟨h.1.error, nofun⟩
    rintro w t ⟨hw, ht⟩
    exact ih.stmts (ht w rfl) hw hss
  | left hst =>
    refine (ih.stmt henv hst).bind ?_ fun a t h => ⟨h.1.error, nofun⟩
    rintro w t ⟨hw, -⟩
    cases hw

theorem hands_block_succ (ih : HandsAt f n) {b : Block} (henv : env.Fits f Γ)
    (hb : Block.Has Γ ρ .any b Γ' r) : Hands f ρ (block (n + 1) b) env (Role.Fits f r) := by
  rintro s rfl
  have hinner : s.env.enter.Fits f Γ := henv.of_get?_eq (Environment.get?_enter s.env)
  have hstmts : Ensures (stmts n .null b) { s with env := s.env.enter } (HandsEnd f ρ Γ' r) :=
    ih.stmts hinner (.any .null) hb
  exact .inScope (hstmts.imp fun _ _ h => h.1)

theorem hands_call_succ (ih : HandsAt f n) {result : Role} {roles : List Role}
    {params : List String} {body : Block} {captured : Environment Value} {args : List Value}
    (hcaptured : captured.Fits f Γ)
    (hbody : Block.Has (Γ.assign (params.zip roles)) result .any body Γ' result)
    (hargs : List.Forall₂ (Role.Fits f) roles args) :
    Hands f ρ (call (n + 1) params body captured args) env (Role.Fits f result) := by
  unfold call
  split
  · cases hinner : captured.enter.defineAll (params.zip args) with
    | error e => exact .fail trivial
    | ok inner =>
      have henter : captured.enter.Fits f Γ := hcaptured.of_get?_eq (Environment.get?_enter captured)
      exact .within (.landing (ih.block (henter.defineAll hargs hinner) hbody))
  · exact .fail trivial

theorem handsAt (f : Value) (n : Nat) : HandsAt f n := by
  induction n with
  | zero =>
    exact ⟨fun _ _ => .tooDeep, fun _ _ => .tooDeep, fun _ _ => .tooDeep, fun _ _ _ => .tooDeep,
      fun _ _ => .tooDeep, fun _ _ _ => .tooDeep⟩
  | succ n ih =>
    exact ⟨hands_expr_succ ih, hands_exprs_succ ih, hands_stmt_succ ih, hands_stmts_succ ih,
      hands_block_succ ih, hands_call_succ ih⟩

theorem hands_program (n : Nat) {s : Session} {p : Program} (henv : s.env.Fits f Γ)
    (hp : Block.Has Γ ρ .any p Γ' r) : Ensures (program n p) s (HandsEnd f ρ Γ' r) := by
  have hinner : s.env.enter.Fits f Γ := henv.of_get?_eq (Environment.get?_enter s.env)
  have hstmts : Ensures (stmts n .null p) { s with env := s.env.enter } (HandsEnd f ρ Γ' r) :=
    (handsAt f n).stmts hinner (.any .null) hp
  refine .committing (hstmts.imp ?_) (hstmts.imp ?_)
  · rintro o t ⟨ho, ht⟩
    exact ⟨ho, fun v hv => (ht v hv).of_get?_eq (Environment.get?_commit t.env)⟩
  · rintro o t - e -
    exact ⟨trivial, nofun⟩

end Eval

namespace Session

open Eval

/-- The names that an action may bind in the scopes that it leaves. -/
def Action.names : Action → List String
  | .execute p | .program p => Block.names p
  | .statement st => st.name?.toList
  | .block _ | .lookup _ | .reset => []

/-- What is known of the roles of names after a step. -/
inductive Step.Hands : Roles → Step → Roles → Prop
  | execute {Γ Γ' : Roles} {r : Role} {p : Program} {v : Value} :
      Block.Has Γ .never .any p Γ' r → Hands Γ (.execute p, some (.ok v)) Γ'
  | program {Γ Γ' : Roles} {r : Role} {p : Program} {v : Value} :
      Block.Has Γ .never .any p Γ' r → Hands Γ (.program p, some (.ok v)) Γ'
  | bind {Γ : Roles} {r ρ : Role} {x : String} {value : Expr} {v : Value} : value.Has Γ ρ r →
      Hands Γ (.statement (.bind x value), some (.ok v)) (Function.update Γ x r)
  /-- Nothing is left of a program that was taken back. -/
  | failed {Γ : Roles} {p : Program} {e : Fault} :
      Hands Γ (.execute p, some (.error (.fault e))) Γ
  | other {Γ : Roles} {a : Action} {o : Option Outcome} : a ≠ .reset →
      Hands Γ (a, o) (Γ.without a.names)

/-- The steps that lead from `s` to another session, with the roles of names before and after. -/
inductive Carried (s : Session) (Γ : Roles) : List Step → Session → Roles → Prop
  | start : Carried s Γ [] s Γ
  | step {steps : List Step} {t u : Session} {Γ₁ Γ₂ : Roles} {a : Action} {depth : Nat}
      {o : Option Outcome} : Carried s Γ steps t Γ₁ → t.perform depth a = some (o, u) →
      Step.Hands Γ₁ (a, o) Γ₂ → Carried s Γ (steps ++ [(a, o)]) u Γ₂

variable {s t : Session} {n : Nat} {f : Value} {Γ Γ' : Roles}

theorem get?_of_stmts {v : Value} {p : Program} {r : Outcome} {x : String}
    (h : (stmts n v p).runIn { s with env := s.env.enter } = some (r, t))
    (hx : x ∉ Block.names p) : t.env.get? x = s.env.get? x := by
  have hnew : Scope.get? t.env.current x = none := by
    by_contra hbound
    have hbinds : Scope.binds t.env.current x = true := Option.isSome_iff_ne_none.2 hbound
    rcases binds_of_stmts n v p _ r t h x hbinds with hold | hold
    · cases hold
    · exact hx hold
  rw [Environment.get?_mk t.env.current t.env.outer x, hnew, outer_of_stmts h, Option.none_or]
  rfl

theorem get?_of_program {p : Program} {r : Outcome} {x : String}
    (h : (Eval.program n p).runIn s = some (r, t)) (hx : x ∉ Block.names p) :
    t.env.get? x = s.env.get? x := by
  rw [Eval.program, runIn_committing] at h
  obtain ⟨⟨r', u⟩, hrun, hend⟩ := Option.map_eq_some_iff.1 h
  have hget := get?_of_stmts hrun hx
  rcases r' with (v | e) | v <;> cases hend
  · exact (Environment.get?_commit u.env x).trans hget
  · exact hget
  · exact (Environment.get?_commit u.env x).trans hget

/-- Other names than those that an action may bind keep their values, unless it is a reset. -/
theorem get?_of_perform {a : Action} {o : Option Outcome} {x : String}
    (h : s.perform n a = some (o, t)) (ha : a ≠ .reset) (hx : x ∉ a.names) :
    t.env.get? x = s.env.get? x := by
  cases a with
  | execute p =>
    rcases runIn_of_execute h with ⟨r, v, hrun, -, -⟩ | ⟨e, u, -, -, rfl⟩
    · exact get?_of_program hrun hx
    · rfl
  | program p =>
    obtain ⟨r, hr, hrun⟩ := runIn_of_map h
    cases hr
    exact get?_of_program hrun hx
  | block b =>
    obtain ⟨r, hr, hrun⟩ := runIn_of_map h
    cases hr
    have henv : t.env = s.env := (framesAt n).block b s r t hrun
    rw [henv]
  | statement st =>
    obtain ⟨r, hr, hrun⟩ := runIn_of_map h
    cases hr
    rcases (framesAt n).stmt st s r t hrun with ⟨henv, -⟩ | ⟨name, v, hname, -, hdefine⟩
    · rw [henv]
    · have hne : x ≠ name := fun he => hx (by simp [Action.names, hname, he])
      rw [Environment.get?_define hdefine, if_neg hne]
  | lookup name =>
    cases h
    rfl
  | reset => exact absurd rfl ha

theorem fits_of_program {p : Program} {r : Role} {o : Outcome} {v : Value}
    (h : (Eval.program n p).runIn s = some (o, t)) (henv : s.env.Fits f Γ)
    (hp : Block.Has Γ .never .any p Γ' r) (ho : o = .ok v ∨ o = .error (.returned v)) :
    t.env.Fits f Γ' := by
  obtain ⟨hrole, ht⟩ := hands_program n henv hp o t h
  obtain rfl | rfl := ho
  · exact ht v rfl
  · cases hrole

theorem fits_of_step {a : Action} {o : Option Outcome} (h : s.perform n a = some (o, t))
    (henv : s.env.Fits f Γ) (hstep : Step.Hands Γ (a, o) Γ') : t.env.Fits f Γ' := by
  cases hstep with
  | execute hp =>
    rcases runIn_of_execute h with ⟨r, v, hrun, hr, ho⟩ | ⟨e, u, -, ho, -⟩
    · cases ho
      exact fits_of_program hrun henv hp hr
    · cases ho
  | program hp =>
    obtain ⟨r, hr, hrun⟩ := runIn_of_map h
    cases hr
    exact fits_of_program hrun henv hp (.inl rfl)
  | bind hvalue =>
    obtain ⟨r, hr, hrun⟩ := runIn_of_map h
    cases hr
    exact ((handsAt f n).stmt henv (.bind hvalue) _ _ hrun).2 _ rfl
  | failed =>
    rcases runIn_of_execute h with ⟨r, v, -, -, ho⟩ | ⟨e, u, -, -, rfl⟩
    · cases ho
    · exact henv
  | other ha =>
    intro x v hv
    unfold Roles.without
    split
    · exact .any v
    · next hx => exact henv x v (get?_of_perform h ha hx ▸ hv)

theorem Carried.fits {steps : List Step} (h : Carried s Γ steps t Γ') (henv : s.env.Fits f Γ) :
    t.env.Fits f Γ' := by
  induction h with
  | start => exact henv
  | step _ hperform hstep ih => exact fits_of_step hperform ih hstep

/-- A program that has the role of the value that is followed gives this value, unless it fails. -/
theorem outcome_of_has {p : Program} {o : Option Outcome} (henv : s.env.Fits f Γ)
    (hp : Block.Has Γ .it .any p Γ' .it) (h : s.perform n (.execute p) = some (o, t)) :
    o = some (.ok f) ∨ ∃ e, o = some (.error (.fault e)) := by
  rcases runIn_of_execute h with ⟨r, v, hrun, hr, rfl⟩ | ⟨e, u, -, rfl, -⟩
  · obtain ⟨hrole, -⟩ := hands_program n henv hp _ _ hrun
    obtain rfl | rfl := hr <;> cases hrole <;> exact .inl rfl
  · exact .inr ⟨e, rfl⟩

end Session

end Monkey

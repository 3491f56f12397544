import Monkey.Proofs.Evaluation.Invariant
import Monkey.Proofs.Identity.Made
import Monkey.Proofs.Session.Run

/-! # Where functions come from

Nothing but the evaluation of a literal gives a new function, and nothing changes one: a
function that is handed on anywhere, or captured by another one, is as it was made. This
holds of all that the steps of a session yield, whatever was failed, taken back or reset
in between.
-/

namespace Monkey

/-- Values in which every function, captured or not, is one of `made`. -/
inductive Value.From (made : List Value) : Value → Prop
  | data {v : Value} : v.IsData → From made v
  | function {id : Nat} {params : List String} {body : Block} {captured : Environment Value} :
      .function id params body captured ∈ made →
      (∀ x v, captured.get? x = some v → From made v) →
      From made (.function id params body captured)

namespace Value.From

variable {made : List Value} {v : Value}

theorem mem (h : v.From made) (hv : v.kind = .function) : v ∈ made := by
  cases h with
  | data hdata => exact absurd hv hdata
  | function hmem _ => exact hmem

end Value.From

namespace Eval

variable {α β : Type} {made : List Value} {env : Environment Value}

/-- Whether what `x` hands on in the environment `env` is from `made`, if what it makes is. -/
def Draws (made : List Value) (x : Eval α) (fs : Session → List Value) (env : Environment Value)
    (Good : α → Prop) : Prop :=
  ∀ s, s.env = env → fs s ⊆ made →
    Ensures x s fun r _ => Upheld (Value.From made) (fun _ => True) Good r

namespace Draws

variable {x : Eval α} {f : α → Eval β} {fs : Session → List Value}
  {gs : α → Session → List Value} {Good : α → Prop} {Good' : β → Prop}

theorem of_upholds (h : Upholds (Value.From made) (fun _ => True) x env Good) :
    Draws made x fs env Good :=
  fun s hs _ => h s hs

theorem tooDeep : Draws made (tooDeep : Eval α) fs env Good := fun _ _ _ => .tooDeep

theorem pure {a : α} (h : Good a) : Draws made (Pure.pure a) fs env Good := fun _ _ _ => .pure h

theorem fail {e : Fault} : Draws made (fail e : Eval α) fs env Good := fun _ _ _ => .fail trivial

theorem ofOperator {r : Except Fault Value} (h : IsOperatorResult r) :
    Draws made (ofExcept r) fs env (Value.From made) :=
  of_upholds (.ofOperator (fun _ => .data) (fun _ _ => trivial) h)

theorem bind (hframe : Frames x) (hx : Draws made x fs env Good)
    (hf : ∀ a, Good a → Draws made (f a) (gs a) env Good') :
    Draws made (x >>= f) (following x fs gs) env Good' := by
  intro s hs hsub r u hr
  obtain ⟨hfs, hgs⟩ := List.append_subset.1 hsub
  rw [runIn_bind] at hr
  obtain ⟨⟨e | a, t⟩, hrun, hr⟩ := Option.bind_eq_some_iff.1 hr
  · cases hr
    exact (hx s hs hfs _ _ hrun).error
  · rw [hrun] at hgs
    exact hf a (hx s hs hfs _ _ hrun) t ((hframe s _ _ hrun).trans hs) hgs r u hr

/-- What goes on from a value without making anything. -/
theorem bind_of_none (hframe : Frames x) (hx : Draws made x fs env Good)
    (hf : ∀ a, Good a → Draws made (f a) (fun _ => []) env Good') :
    Draws made (x >>= f) fs env Good' := by
  have h : Draws made (x >>= f) (following x fs fun _ _ => []) env Good' := bind hframe hx hf
  rwa [following_nil] at h

theorem makeFunction {params : List String} {body : Block} (henv : env.Every (Value.From made)) :
    Draws made (makeFunction params body)
      (following (Eval.makeFunction params body) (fun _ => []) fun v _ => [v]) env
      (Value.From made) := by
  rintro s rfl hsub r t hr
  rw [runIn_makeFunction] at hr
  cases hr
  exact .function (hsub List.mem_cons_self) henv

end Draws

/-- Whether an outcome, and the environment that is left, hold nothing that is not from `made`. -/
def DrawnEnd (made : List Value) (r : Outcome) (t : Session) : Prop :=
  Upheld (Value.From made) (fun _ => True) (Value.From made) r ∧ t.env.Every (Value.From made)

/-- What each rule hands on is from `made` when `n` nested rules may start. -/
structure DrawsAt (made : List Value) (n : Nat) : Prop where
  expr {env : Environment Value} (e : Expr) : env.Every (Value.From made) →
    Draws made (expr n e) (Made.expr n e) env (Value.From made)
  exprs {env : Environment Value} (es : List Expr) : env.Every (Value.From made) →
    Draws made (exprs n es) (Made.exprs n es) env fun vs => ∀ v ∈ vs, v.From made
  stmt {s : Session} (st : Stmt) : s.env.Every (Value.From made) → Made.stmt n st s ⊆ made →
    Ensures (stmt n st) s (DrawnEnd made)
  stmts {s : Session} (v : Value) (ss : List Stmt) : v.From made →
    s.env.Every (Value.From made) → Made.stmts n ss s ⊆ made →
    Ensures (stmts n v ss) s (DrawnEnd made)
  block {env : Environment Value} (b : Block) : env.Every (Value.From made) →
    Draws made (block n b) (Made.block n b) env (Value.From made)
  call {env : Environment Value} (params : List String) (body : Block)
    (captured : Environment Value) (args : List Value) : captured.Every (Value.From made) →
    (∀ v ∈ args, v.From made) → Draws made (call n params body captured args)
      (Made.call n params body captured args) env (Value.From made)

variable {n : Nat}

theorem draws_expr_succ (ih : DrawsAt made n) (e : Expr) (henv : env.Every (Value.From made)) :
    Draws made (expr (n + 1) e) (Made.expr (n + 1) e) env (Value.From made) := by
  have hframe := framesAt n
  cases e with
  | ident name => exact .of_upholds (.lookup henv trivial)
  | int n => exact .pure (.data nofun)
  | str s => exact .pure (.data nofun)
  | bool b => exact .pure (.data nofun)
  | unary op operand =>
    refine (ih.expr operand henv).bind_of_none (hframe.expr operand) fun v _ => ?_
    exact .ofOperator (op.apply_isOperatorResult v)
  | binary op left right =>
    refine (ih.expr left henv).bind (hframe.expr left) fun v _ => ?_
    refine (ih.expr right henv).bind_of_none (hframe.expr right) fun w _ => ?_
    exact .ofOperator (op.apply_isOperatorResult v w)
  | cond condition consequence alternative =>
    refine (ih.expr condition henv).bind (hframe.expr condition) fun v _ => ?_
    match v, alternative with
    | .bool true, _ => exact ih.block _ henv
    | .bool false, some _ => exact ih.block _ henv
    | .bool false, none => exact .pure (.data nofun)
    | .null, _ | .int _, _ | .str _, _ | .function .., _ => exact .fail
  | fn params body => exact .makeFunction henv
  | call callee args =>
    refine (ih.expr callee henv).bind (hframe.expr callee) fun v hv => ?_
    cases hv with
    | function _ hcaptured =>
      refine (ih.exprs args henv).bind (hframe.exprs args) fun vs hvs => ?_
      exact ih.call _ _ _ vs hcaptured hvs
    | data hdata =>
      split
      · exact absurd rfl hdata
      · exact .fail

theorem draws_exprs_succ (ih : DrawsAt made n) (es : List Expr)
    (henv : env.Every (Value.From made)) :
    Draws made (exprs (n + 1) es) (Made.exprs (n + 1) es) env fun vs => ∀ v ∈ vs, v.From made := by
  have hframe := framesAt n
  cases es with
  | nil => exact .pure nofun
  | cons e es =>
    refine (ih.expr e henv).bind (hframe.expr e) fun v hv => ?_
    refine (ih.exprs es henv).bind_of_none (hframe.exprs es) fun vs hvs => .pure ?_
    exact List.forall_mem_cons.2 ⟨hv, hvs⟩

theorem draws_stmt_succ (ih : DrawsAt made n) {s : Session} (st : Stmt)
    (henv : s.env.Every (Value.From made)) (hsub : Made.stmt (n + 1) st s ⊆ made) :
    Ensures (stmt (n + 1) st) s (DrawnEnd made) := by
  have hvalue (value : Expr) (h : Made.expr n value s ⊆ made) : Ensures (expr n value) s
      fun r t => t.env = s.env ∧ Upheld (Value.From made) (fun _ => True) (Value.From made) r :=
    ((framesAt n).expr value s).and (ih.expr value henv s rfl h)
  have habrupt (a : Abrupt) (t : Session) : t.env = s.env ∧
      Upheld (Value.From made) (fun _ => True) (Value.From made) (.error a) →
      DrawnEnd made (.error a) t := by
    rintro ⟨ht, h⟩
    exact ⟨h, ht ▸ henv⟩
  cases st with
  | bind name value =>
    refine (hvalue value hsub).bind ?_ habrupt
    rintro v t ⟨ht, hv⟩
    have hdefine : Ensures (define name v) t fun r u =>
        Upheld (Value.From made) (fun _ => True) (fun _ => True) r ∧
          u.env.Every (Value.From made) := by
      refine .define (fun env hd => ⟨trivial, ?_⟩) ⟨trivial, ht ▸ henv⟩
      exact (ht ▸ henv : t.env.Every (Value.From made)).define hv hd
    exact hdefine.bind (fun _ u h => .pure ⟨hv, h.2⟩) fun _ _ h => ⟨h.1.error, h.2⟩
  | ret value => exact (hvalue value hsub).bind (fun v t h => .returning ⟨h.2, h.1 ▸ henv⟩) habrupt
  | expr value => exact (hvalue value hsub).imp fun r t h => ⟨h.2, h.1 ▸ henv⟩

theorem draws_stmts_succ (ih : DrawsAt made n) {s : Session} (v : Value) (ss : List Stmt)
    (hv : v.From made) (henv : s.env.Every (Value.From made))
    (hsub : Made.stmts (n + 1) ss s ⊆ made) : Ensures (stmts (n + 1) v ss) s (DrawnEnd made) := by
  cases ss with
  | nil => exact .pure ⟨hv, henv⟩
  | cons st ss =>
    obtain ⟨hst, hss⟩ := List.append_subset.1 hsub
    intro r u hr
    change (stmt n st >>= fun w => stmts n w ss).runIn s = _ at hr
    rw [runIn_bind] at hr
    obtain ⟨⟨e | w, t⟩, hrun, hr⟩ := Option.bind_eq_some_iff.1 hr
    · cases hr
      exact ih.stmt st henv hst _ _ hrun
    · obtain ⟨hw, ht⟩ := ih.stmt st henv hst _ _ hrun
      rw [hrun] at hss
      exact ih.stmts w ss hw ht hss r u hr

theorem draws_block_succ (ih : DrawsAt made n) (b : Block) (henv : env.Every (Value.From made)) :
    Draws made (block (n + 1) b) (Made.block (n + 1) b) env (Value.From made) := by
  rintro s rfl hsub
  have hstmts : Ensures (stmts n .null b) { s with env := s.env.enter } (DrawnEnd made) :=
    ih.stmts .null b (.data nofun) henv.enter hsub
  exact .inScope (hstmts.imp fun _ _ h => h.1)

theorem draws_call_succ (ih : DrawsAt made n) (params : List String) (body : Block)
    (captured : Environment Value) (args : List Value)
    (hcaptured : captured.Every (Value.From made)) (hargs : ∀ v ∈ args, v.From made) :
    Draws made (call (n + 1) params body captured args)
      (Made.call (n + 1) params body captured args) env (Value.From made) := by
  intro s _ hsub
  unfold call
  unfold Made.call at hsub
  split
  · next hlen =>
    rw [if_pos hlen] at hsub
    cases hinner : captured.enter.defineAll (params.zip args) with
    | error e => exact .fail trivial
    | ok inner =>
      rw [hinner] at hsub
      have hpairs : ∀ b ∈ params.zip args, b.2.From made :=
        fun b hb => hargs b.2 (List.of_mem_zip hb).2
      have hbody := ih.block body (hcaptured.enter.defineAll hpairs hinner) _ rfl hsub
      exact .within (hbody.landing (fun _ _ hv => hv) (fun _ _ hv => hv) fun _ _ he => he)
  · exact .fail trivial

theorem drawsAt (made : List Value) (n : Nat) : DrawsAt made n := by
  induction n with
  | zero =>
    exact ⟨fun _ _ => .tooDeep, fun _ _ => .tooDeep, fun _ _ _ => .tooDeep,
      fun _ _ _ _ _ => .tooDeep, fun _ _ => .tooDeep, fun _ _ _ _ _ _ => .tooDeep⟩
  | succ n ih =>
    exact ⟨draws_expr_succ ih, draws_exprs_succ ih, draws_stmt_succ ih, draws_stmts_succ ih,
      draws_block_succ ih, draws_call_succ ih⟩

theorem draws_program (n : Nat) {s : Session} {p : Program} (henv : s.env.Every (Value.From made))
    (hsub : Made.stmts n p { s with env := s.env.enter } ⊆ made) :
    Ensures (program n p) s (DrawnEnd made) := by
  have hstmts : Ensures (stmts n .null p) { s with env := s.env.enter } (DrawnEnd made) :=
    (drawsAt made n).stmts .null p (.data nofun) henv.enter hsub
  refine .committing (hstmts.imp ?_) (hstmts.imp ?_)
  · rintro r t ⟨hr, ht⟩
    exact ⟨hr, ht.commit⟩
  · rintro r t ⟨-, ht⟩ e -
    exact ⟨trivial, ht⟩

end Eval

namespace Session

open Eval

/-- The functions that an action makes. -/
def made (depth : Nat) (s : Session) : Action → List Value
  | .execute p | .program p => Made.stmts depth p { s with env := s.env.enter }
  | .block b => Made.block depth b s
  | .statement st => Made.stmt depth st s
  | .lookup _ | .reset => []

/-- An action with its outcome, the functions that it made, and the session after it. -/
structure Visit where
  action : Action
  outcome : Option Outcome
  made : List Value
  after : Session

/-- The visits that lead from `s` to another session. The depth may differ from visit to visit. -/
inductive History (s : Session) : List Visit → Session → Prop
  | start : History s [] s
  | step {visits : List Visit} {t u : Session} {a : Action} {depth : Nat} {o : Option Outcome} :
      History s visits t → t.perform depth a = some (o, u) →
      History s (visits ++ [⟨a, o, t.made depth a, u⟩]) u

/-- All functions that were made, in order. -/
def allMade (visits : List Visit) : List Value :=
  visits.flatMap Visit.made

/-- Outcomes of visits, values bound after any of them, and what closures among these capture. -/
inductive Yielded (visits : List Visit) : Value → Prop
  | value {visit : Visit} {v : Value} : visit ∈ visits → visit.outcome = some (.ok v) →
      Yielded visits v
  | returned {visit : Visit} {v : Value} : visit ∈ visits →
      visit.outcome = some (.error (.returned v)) → Yielded visits v
  | bound {visit : Visit} {x : String} {v : Value} : visit ∈ visits →
      visit.after.env.get? x = some v → Yielded visits v
  | captured {id : Nat} {params : List String} {body : Block} {captured : Environment Value}
      {x : String} {v : Value} : Yielded visits (.function id params body captured) →
      captured.get? x = some v → Yielded visits v

variable {s t : Session} {n : Nat} {visits : List Visit} {made : List Value}

theorem allMade_concat (visits : List Visit) (visit : Visit) :
    allMade (visits ++ [visit]) = allMade visits ++ visit.made := by
  simp [allMade]

theorem numbered_of_perform {a : Action} {o : Option Outcome}
    (h : s.perform n a = some (o, t)) : Numbered s.nextId (s.made n a) t.nextId := by
  cases a with
  | execute p =>
    rcases runIn_of_execute h with ⟨r, v, hrun, -, -⟩ | ⟨e, u, hrun, -, rfl⟩
    · exact numbers_program n p s _ _ hrun
    · have hnumbered := numbers_program n p s _ _ hrun
      exact hnumbered
  | program p =>
    obtain ⟨r, rfl, hrun⟩ := runIn_of_map h
    exact numbers_program n p s _ _ hrun
  | block b =>
    obtain ⟨r, rfl, hrun⟩ := runIn_of_map h
    exact (numbersAt n).block b s _ _ hrun
  | statement st =>
    obtain ⟨r, rfl, hrun⟩ := runIn_of_map h
    exact (numbersAt n).stmt st s _ _ hrun
  | lookup name =>
    cases h
    exact .nil _
  | reset =>
    cases h
    exact .nil _

theorem History.numbered (h : History s visits t) :
    Numbered s.nextId (allMade visits) t.nextId := by
  induction h with
  | start => exact .nil _
  | step _ hperform ih =>
    rw [allMade_concat]
    exact ih.append (numbered_of_perform hperform)

/-- Whether an outcome, if there is one, and the environment after it hold only what is from `made`. -/
def Drawn (made : List Value) (o : Option Outcome) (t : Session) : Prop :=
  (∀ r, o = some r → Upheld (Value.From made) (fun _ => True) (Value.From made) r) ∧
    t.env.Every (Value.From made)

theorem drawn_of_end {r : Outcome} (h : DrawnEnd made r t) : Drawn made (some r) t := by
  refine ⟨?_, h.2⟩
  rintro _ ⟨⟩
  exact h.1

theorem drawn_of_perform {a : Action} {o : Option Outcome} (h : s.perform n a = some (o, t))
    (henv : s.env.Every (Value.From made)) (hsub : s.made n a ⊆ made) : Drawn made o t := by
  cases a with
  | execute p =>
    rcases runIn_of_execute h with ⟨r, v, hrun, hr, rfl⟩ | ⟨e, u, -, rfl, rfl⟩
    · have hdrawn := draws_program n henv hsub _ _ hrun
      obtain rfl | rfl := hr <;> exact drawn_of_end hdrawn
    · exact drawn_of_end ⟨trivial, henv⟩
  | program p =>
    obtain ⟨r, rfl, hrun⟩ := runIn_of_map h
    exact drawn_of_end (draws_program n henv hsub _ _ hrun)
  | block b =>
    obtain ⟨r, rfl, hrun⟩ := runIn_of_map h
    have ht : t.env = s.env := (framesAt n).block b s r t hrun
    exact drawn_of_end ⟨(drawsAt made n).block b henv s rfl hsub _ _ hrun, ht ▸ henv⟩
  | statement st =>
    obtain ⟨r, rfl, hrun⟩ := runIn_of_map h
    exact drawn_of_end ((drawsAt made n).stmt st henv hsub _ _ hrun)
  | lookup name =>
    cases h
    refine drawn_of_end ⟨?_, henv⟩
    unfold Environment.get
    cases hv : s.env.get? name with
    | none => trivial
    | some v => exact henv name v hv
  | reset =>
    cases h
    exact ⟨by rintro _ ⟨⟩, .empty⟩

/-- Whatever a session holds after any of its visits, every function in it was made in one of them. -/
theorem History.drawn {id : Nat} (h : History (fresh id) visits s) (hsub : allMade visits ⊆ made) :
    s.env.Every (Value.From made) ∧ ∀ visit ∈ visits, Drawn made visit.outcome visit.after := by
  induction h with
  | start => exact ⟨.empty, fun visit hmem => absurd hmem List.not_mem_nil⟩
  | step _ hperform ih =>
    rw [allMade_concat] at hsub
    obtain ⟨hold, hnew⟩ := List.append_subset.1 hsub
    obtain ⟨henv, hvisits⟩ := ih hold
    have hdrawn := drawn_of_perform hperform henv hnew
    refine ⟨hdrawn.2, fun visit hmem => ?_⟩
    rcases List.mem_append.1 hmem with hmem | hmem
    · exact hvisits visit hmem
    · rw [List.mem_singleton.1 hmem]
      exact hdrawn

theorem Yielded.drawn {id : Nat} {v : Value} (hv : Yielded visits v)
    (h : History (fresh id) visits s) : v.From (allMade visits) := by
  obtain ⟨-, hvisits⟩ := h.drawn (List.Subset.refl _)
  induction hv with
  | value hmem ho => exact (hvisits _ hmem).1 _ ho
  | returned hmem ho => exact (hvisits _ hmem).1 _ ho
  | bound hmem hx => exact (hvisits _ hmem).2 _ _ hx
  | captured _ hx ih =>
    cases ih with
    | data hdata => exact absurd rfl hdata
    | function _ hcaptured => exact hcaptured _ _ hx

end Session

end Monkey

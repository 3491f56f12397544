import Monkey.Proofs.Evaluation.Correspondence
import Monkey.Proofs.Evaluation.FreeNames

/-! # Calling a function is letting its parameters

A function literal that is called on the spot does what a block does that binds the
parameters to the arguments one after the other, with the body in a block inside. The
call evaluates all arguments outside of the scope of the parameters, the block each one
in the scope of those before; a parameter that is free in no argument cannot be seen.
-/

namespace Monkey

/-- A function literal called on the spot. -/
def Expr.invoked (params : List String) (body : Block) (args : List Expr) : Expr :=
  .call (.fn params body) args

/-- Parameters bound to arguments, one after the other. -/
def Block.lets (params : List String) (args : List Expr) : Block :=
  List.zipWith .bind params args

/-- A block as the only statement of another one. -/
def Block.nested (body : Block) : Block :=
  [.expr (.cond (.bool true) body none)]

/-- A block that binds parameters to arguments, around a body. -/
def Expr.letting (params : List String) (body : Block) (args : List Expr) : Expr :=
  .cond (.bool true) (Block.lets params args ++ Block.nested body) none

namespace Outcome

/-- An outcome of a body, as its function's: a returned value is the result. -/
def landed : Outcome → Outcome
  | .error (.returned v) => .ok v
  | r => r

/--
Whether the ends of a call and of a block that lets its parameters show the same after the arguments
have ended: what ends an argument abruptly ends both, and a value that the body returns is the
result of the call only.
-/
def SameAfter {α : Type} (arguments : Except Abrupt α) (r r' : Outcome) : Prop :=
  match arguments with
  | .ok _ => shown r = shown (landed r')
  | .error a => shown r = shown (.error a) ∧ shown r' = shown (.error a)

end Outcome

namespace Environment

variable {G : Set String} {e e' d : Environment Value}

/-- A name that is not looked up may be bound. -/
theorem Agree.define_right {name : String} {v : Value} (h : Agree G e e') (hname : name ∉ G)
    (hd : e'.define name v = .ok d) : Agree G e d := by
  have hget (x : String) (hx : x ∈ G) : d.get? x = e'.get? x := by
    rw [get?_define hd, if_neg]
    rintro rfl
    exact hname hx
  constructor
  · intro x hx
    rw [h.binds x hx, Environment.binds, Environment.binds, hget x hx]
  · intro x hx v w hv hw
    rw [hget x hx] at hw
    exact h.values x hx v w hv hw

/-- Binding a name binds no other one. -/
theorem binds_define_of_ne {name x : String} {v : Value} (hd : e.define name v = .ok d)
    (hx : x ≠ name) : Scope.binds d.current x = Scope.binds e.current x := by
  obtain ⟨-, rfl⟩ := define_eq_ok_iff.1 hd
  rw [Scope.binds, Scope.binds, Scope.get?_cons, if_neg hx]

end Environment

namespace Eval

open Environment (Agree)

theorem runIn_landing_landed (x : Eval Value) (s : Session) :
    (landing x).runIn s = (x.runIn s).map fun (r, t) => (Outcome.landed r, t) := by
  rw [runIn_landing]
  rcases x.runIn s with _ | ⟨(_ | _) | _, _⟩ <;> rfl

theorem Matched.shown_landed {p p' : Outcome × Session}
    {Ok : Value → Session → Value → Session → Prop} {Abr : Session → Session → Prop}
    (h : Matched Ok Abr p p') (hok : ∀ v t w t', Ok v t w t' → v.Similar w) :
    Outcome.shown (Outcome.landed p.1) = Outcome.shown (Outcome.landed p'.1) := by
  cases h with
  | ok h => exact (hok _ _ _ _ h).shown_ok
  | returned hvw => exact hvw.shown_ok
  | fault e => rfl

variable {G : Set String} {params : List String} {args : List Expr} {body : Block}
  {s s' t t' : Session}

/-! ## The arguments -/

/-- Binding a name to an expression is evaluating it, if the name is neither bound nor looked up. -/
theorem bind_corresponds {e : Expr} {name : String} (h : Agree G s.env s'.env) (he : e.Scoped G)
    (hname : Scope.binds s'.env.current name = false) :
    Corresponds (fun n => expr n e) s (fun n => stmt n (.bind name e)) s'
      (Matched (fun v t w t' => v.Similar w ∧ t.env = s.env ∧
        s'.env.define name w = .ok t'.env) fun _ _ => True) := by
  refine .of_succ_right rfl ((expr_corresponds h he).bind_right ?_)
  rintro _ _ (@⟨v, w, t, t', hvw, ht, ht'⟩ | ⟨hvw, -⟩ | ⟨e, -⟩)
  · obtain ⟨d, hd⟩ : ∃ d, s'.env.define name w = .ok d :=
      ⟨_, Environment.define_eq_ok_iff.2 ⟨hname, rfl⟩⟩
    have hdefine : (define name w >>= fun _ => pure w).runIn t' =
        some (.ok w, { t' with env := d }) := by
      rw [runIn_bind, runIn_define, ht', hd]
      rfl
    exact .of_ends (fun _ => rfl) (fun _ => hdefine) (.ok ⟨hvw, ht, hd⟩)
  · exact .returned hvw trivial
  · exact .fault e trivial

/--
Arguments are evaluated as the values that the parameters are bound to, each in the scope of those
before it: the parameters are not bound yet, and no argument looks one up.
-/
theorem args_correspond (hlength : params.length = args.length) (hnodup : params.Nodup)
    (hscope : ∀ x ∈ params, Scope.binds s'.env.current x = false) (h : Agree G s.env s'.env)
    (hargs : Expr.AllScoped G args) (hfresh : ∀ x ∈ params, x ∉ G) (v : Value) :
    Corresponds (fun n => exprs n args) s
      (fun n => stmts n v (Block.lets params args)) s'
      (Matched (fun vs _ _ t' => vs.length = args.length ∧ ∃ ws,
        List.Forall₂ Value.Similar vs ws ∧ s'.env.defineAll (params.zip ws) = .ok t'.env)
        fun _ _ => True) := by
  induction args generalizing params s s' v with
  | nil =>
    obtain rfl : params = [] := List.length_eq_zero_iff.1 hlength
    refine .of_succ_left rfl (.of_succ_right rfl (.of_ends (fun _ => rfl) (fun _ => rfl) ?_))
    exact .ok ⟨rfl, [], .nil, rfl⟩
  | cons e args ih =>
    obtain ⟨name, params, rfl⟩ : ∃ x xs, params = x :: xs := by
      cases params with
      | nil => simp at hlength
      | cons x xs => exact ⟨x, xs, rfl⟩
    rw [List.nodup_cons] at hnodup
    refine .of_succ_left rfl (.of_succ_right rfl ?_)
    refine (bind_corresponds h hargs.1 (hscope name List.mem_cons_self)).bind ?_
    rintro _ _ (@⟨v, w, t, t', hvw, ht, hd⟩ | ⟨hvw, -⟩ | ⟨e, -⟩)
    · have hagree : Agree G t.env t'.env := by
        rw [ht]
        exact h.define_right (hfresh name List.mem_cons_self) hd
      have hscope' (x : String) (hx : x ∈ params) :
          Scope.binds t'.env.current x = false := by
        have hne : x ≠ name := fun he => hnodup.1 (he ▸ hx)
        rw [Environment.binds_define_of_ne hd hne]
        exact hscope x (List.mem_cons_of_mem name hx)
      refine (ih (Nat.succ.inj hlength) hnodup.2 hscope' hagree hargs.2
        (fun x hx => hfresh x (List.mem_cons_of_mem name hx)) w).bind_left ?_
      rintro _ _ (@⟨vs, _, u, u', hlen, ws, hvs, hds⟩ | ⟨hvw, -⟩ | ⟨e, -⟩)
      · refine .of_ends (fun _ => rfl) (fun _ => rfl) (.ok ⟨congrArg (· + 1) hlen, w :: ws, ?_⟩)
        exact ⟨.cons hvw hvs, Environment.defineAll_cons_eq_ok_iff.2 ⟨_, hd, hds⟩⟩
      · exact .returned hvw trivial
      · exact .fault e trivial
    · exact .returned hvw trivial
    · exact .fault e trivial

/-- The arguments of a call, and the bindings in the new scope of a block. -/
theorem args_correspond_enter (hlength : params.length = args.length) (hnodup : params.Nodup)
    (hfresh : ∀ x ∈ params, x ∉ Expr.allFree args) (s : Session) (i : Nat) :
    Corresponds (fun n => exprs n args) { s with nextId := i }
      (fun n => stmts n .null (Block.lets params args)) { s with env := s.env.enter }
      (Matched (fun vs _ _ t' => vs.length = args.length ∧ ∃ ws,
        List.Forall₂ Value.Similar vs ws ∧ s.env.enter.defineAll (params.zip ws) = .ok t'.env)
        fun _ _ => True) := by
  have hagree : Agree (Expr.allFree args) s.env s.env.enter :=
    (Agree.refl _ s.env).of_get?_eq (fun _ => rfl) s.env.get?_enter
  have hargs : Expr.AllScoped (Expr.allFree args) args := (Expr.allScoped_iff args).2 subset_rfl
  exact args_correspond hlength hnodup (fun _ _ => rfl) hagree hargs hfresh .null

/-- Arguments that end alike are followed by the same. -/
theorem Matched.sameAfter {α β : Type} {Ok : α → Session → β → Session → Prop}
    {Abr : Session → Session → Prop} {p : Except Abrupt α × Session}
    {p' : Except Abrupt β × Session} {r r' : Outcome} (hm : Matched Ok Abr p p')
    (h : Outcome.SameAfter p'.1 r r') : Outcome.SameAfter p.1 r r' := by
  cases hm with
  | ok => exact h
  | returned hvw =>
    exact ⟨h.1.trans hvw.shown_returned.symm, h.2.trans hvw.shown_returned.symm⟩
  | fault e => exact h

/-! ## The body -/

/-- A conditional whose condition is true is its first branch. -/
theorem cond_true_corresponds (b : Block) (s : Session) :
    Corresponds (fun n => block n b) s (fun n => expr n (.cond (.bool true) b none)) s Eq :=
  .of_succ_right rfl (.of_succ_right rfl (.deeper (fun n => (deeperAt n).block b) s 1))

/-- A block that is the only statement is evaluated for its value. -/
theorem last_block_corresponds (v : Value) (b : Block) (s : Session) :
    Corresponds (fun n => block n b) s
      (fun n => stmts n v (Block.nested b)) s Eq := by
  have hstmt : Corresponds (fun n => block n b) s
      (fun n => stmt n (.expr (.cond (.bool true) b none))) s Eq :=
    .of_succ_right rfl (cond_true_corresponds b s)
  refine .of_succ_right rfl (hstmt.bind_right ?_)
  rintro ⟨r, t⟩ _ rfl
  cases r with
  | ok w => exact .of_succ_right rfl (.of_ends (fun _ => rfl) (fun _ => rfl) rfl)
  | error a => rfl

/--
A function's body is evaluated as in a block inside the one where the parameters were let: the
scope of the parameters is filled in the same order, with similar values.
-/
theorem call_corresponds {vs ws : List Value} {c : Environment Value}
    (hlength : params.length = vs.length) (hvs : List.Forall₂ Value.Similar vs ws)
    (hdefine : c.enter.defineAll (params.zip ws) = .ok t'.env) (body : Block) (t : Session) :
    Corresponds (fun n => call n params body c vs) t (fun n => block n body) t'
      fun o o' => Outcome.shown o.1 = Outcome.shown (Outcome.landed o'.1) := by
  obtain ⟨d, hd, hagree⟩ : ∃ d, c.enter.defineAll (params.zip vs) = .ok d ∧
      Agree Set.univ d t'.env := by
    have hc : Agree Set.univ c.enter c.enter := .refl _ _
    rcases hc.defineAll (fun _ _ => rfl) hvs hlength with ⟨name, -, he⟩ | ⟨d, d', hd, hd', h⟩
    · rw [hdefine] at he
      cases he
    · rw [hdefine] at hd'
      cases hd'
      exact ⟨d, hd, h.subset Set.subset_union_left⟩
  have hrun (n : Nat) : (call (n + 1) params body c vs).runIn t =
      ((block n body).runIn { t with env := d }).map fun (r, u) =>
        (Outcome.landed r, { u with env := t.env }) := by
    rw [call, if_pos hlength, hd]
    change (within d (landing (block n body))).runIn t = _
    rw [runIn_within, runIn_landing_landed, Option.map_map]
    rfl
  have hbody := block_corresponds (s := { t with env := d }) hagree (Stmt.allScoped_univ body)
  refine .of_succ_left rfl (.map_left hrun (hbody.imp fun o o' hm => ?_))
  exact hm.shown_landed fun _ _ _ _ h => h.1

/-! ## The call -/

/-- A call on the spot evaluates the arguments behind the function, and then calls it. -/
theorem runIn_invoked (n : Nat) (s : Session) :
    (expr (n + 2) (.invoked params body args)).runIn s =
      (exprs (n + 1) args >>= fun vs => call (n + 1) params body s.env vs).runIn
        { s with nextId := s.nextId + 1 } := rfl

/-- A block that lets its parameters does so in a new scope, and goes on with the body. -/
theorem letting_corresponds (params : List String) (body : Block) (args : List Expr)
    (s : Session) :
    Corresponds
      (fun n => stmts n .null (Block.lets params args) >>= fun w => stmts n w (Block.nested body))
      { s with env := s.env.enter } (fun n => expr n (.letting params body args)) s
      fun o o' => o.1 = o'.1 := by
  have hparts := stmts_append_corresponds .null (Block.lets params args) (Block.nested body) 0
    { s with env := s.env.enter }
  have hscope := (hparts.imp fun _ _ h => congrArg Prod.fst h).map_right
    (R := fun o o' => o.1 = o'.1)
    fun n => runIn_inScope (stmts n .null (Block.lets params args ++ Block.nested body)) s
  exact (Corresponds.of_succ_right rfl hscope).trans (cond_true_corresponds _ s)
    fun _ _ _ hr he => he ▸ hr

/-- Ends of a call and of a block, after the bindings of the block have ended. -/
def SameAfterLets (params : List String) (args : List Expr) (s : Session)
    (o o' : Outcome × Session) : Prop :=
  ∃ p, Yields (fun n => stmts n .null (Block.lets params args)) { s with env := s.env.enter } p ∧
    Outcome.SameAfter p.1 o.1 o'.1

/-- What follows the arguments of a call, and the bindings of a block. -/
theorem args_call_correspond (hlength : params.length = args.length) (hnodup : params.Nodup)
    (hfresh : ∀ x ∈ params, x ∉ Expr.allFree args) (body : Block) (s : Session) (i : Nat) :
    Corresponds (fun n => exprs n args >>= fun vs => call n params body s.env vs)
      { s with nextId := i }
      (fun n => stmts n .null (Block.lets params args) >>= fun w => stmts n w (Block.nested body))
      { s with env := s.env.enter } (SameAfterLets params args s) := by
  have hargs := args_correspond_enter hlength hnodup hfresh s i
  apply (hargs.and_yields fun n => (deeperAt n).stmts _ _).bind
  rintro _ _ ⟨@⟨vs, w, t, t', hlen, ws, hvs, hdefine⟩ | ⟨hvw, -⟩ | ⟨e, -⟩, hends⟩
  · have hbody := call_corresponds (hlength.trans hlen.symm) hvs hdefine body t
    apply hbody.trans (last_block_corresponds w body t')
    rintro o p _ hshown rfl
    exact ⟨_, hends, hshown⟩
  · exact ⟨_, hends, hvw.shown_returned, rfl⟩
  · exact ⟨_, hends, rfl, rfl⟩

/-- A call and a block that lets the parameters, by how the bindings of the block end. -/
theorem invoked_corresponds (hlength : params.length = args.length) (hnodup : params.Nodup)
    (hfresh : ∀ x ∈ params, x ∉ Expr.allFree args) (body : Block) (s : Session) :
    Corresponds (fun n => expr n (.invoked params body args)) s
      (fun n => expr n (.letting params body args)) s (SameAfterLets params args s) := by
  have hcall : Corresponds (fun n => exprs n args >>= fun vs => call n params body s.env vs)
      { s with nextId := s.nextId + 1 } (fun n => expr n (.letting params body args)) s
      (SameAfterLets params args s) := by
    apply (args_call_correspond hlength hnodup hfresh body s (s.nextId + 1)).trans
      (letting_corresponds params body args s)
    rintro o p o' ⟨q, hq, hsame⟩ hp
    exact ⟨q, hq, hp ▸ hsame⟩
  refine .of_succ_left rfl (.of_succ_left rfl ?_)
  exact hcall.succ_left.map_left fun n => by rw [runIn_invoked, Option.map_id']

/--
Calling a function literal is letting its parameters. Let the parameters be distinct and free in
none of as many arguments, in any session. Then the call ends if and only if the block does that
binds the parameters one after the other, with the body in a block inside. The arguments have ended
then, and if one of them ended abruptly, both ends show that: the same fault, or the same `return`.
Otherwise both show the same fault of the body, or a value of the same kind and text; where the
block is left by a `return` of the body, the call has its value as result.
-/
theorem invoked_shows_letting (hlength : params.length = args.length) (hnodup : params.Nodup)
    (hfresh : ∀ x ∈ params, x ∉ Expr.allFree args) (body : Block) (s : Session) :
    ((∃ n o, (expr n (.invoked params body args)).runIn s = some o) ↔
        ∃ n o, (expr n (.letting params body args)).runIn s = some o) ∧
      ∀ n m r r' t t', (expr n (.invoked params body args)).runIn s = some (r, t) →
        (expr m (.letting params body args)).runIn s = some (r', t') →
          ∃ k q u, (exprs k args).runIn s = some (q, u) ∧ Outcome.SameAfter q r r' := by
  have hends := invoked_corresponds hlength hnodup hfresh body s
  refine ⟨⟨?_, ?_⟩, ?_⟩
  · rintro ⟨n, o, ho⟩
    obtain ⟨o', ⟨m, ho'⟩, -⟩ := hends.forth n o ho
    exact ⟨m, o', ho' m (Nat.le_refl m)⟩
  · rintro ⟨n, o', ho'⟩
    obtain ⟨o, ⟨m, ho⟩, -⟩ := hends.back n o' ho'
    exact ⟨m, o, ho m (Nat.le_refl m)⟩
  · intro n m r r' t t' hr hr'
    obtain ⟨o', ho', p, ⟨j, hp⟩, hsame⟩ := hends.forth n (r, t) hr
    obtain rfl := ho'.unique (.of_runIn (fun k => (deeperAt k).expr _) hr')
    have hargs := args_correspond_enter hlength hnodup hfresh s s.nextId
    obtain ⟨⟨q, u⟩, ⟨k, hq⟩, hm⟩ := hargs.back j p (hp j (Nat.le_refl j))
    exact ⟨k, q, u, hq k (Nat.le_refl k), hm.sameAfter hsame⟩

/--
A body that binds a parameter anew, calls an argument that is a closure and returns; and an argument
that returns.
-/
theorem invoked_shows_letting_redeclared :
    let s : Session := ⟨⟨[("a", .int 2)], []⟩, 0⟩
    let params := ["x", "f"]
    let args : List Expr := [.binary .add (.ident "a") (.int 1),
      .fn ["y"] [.expr (.binary .mul (.ident "a") (.ident "y"))]]
    let leaving : List Expr := [.cond (.bool true) [.ret (.ident "a")] none, .bool true]
    let body : Block := [.bind "x" (.call (.ident "f") [.ident "x"]), .ret (.ident "x")]
    (∃ r r' t t', (expr 20 (.invoked params body args)).runIn s = some (r, t) ∧
        (expr 20 (.letting params body args)).runIn s = some (r', t') ∧
        Outcome.shown r = .ok (false, .integer, "6") ∧
        Outcome.shown r' = .ok (true, .integer, "6") ∧
        ∃ k q u, (exprs k args).runIn s = some (q, u) ∧ Outcome.SameAfter q r r') ∧
      ∃ r r' t t', (expr 20 (.invoked params body leaving)).runIn s = some (r, t) ∧
        (expr 20 (.letting params body leaving)).runIn s = some (r', t') ∧
        Outcome.shown r = .ok (true, .integer, "2") ∧
        ∃ k q u, (exprs k leaving).runIn s = some (q, u) ∧ Outcome.SameAfter q r r' := by
  intro s params args leaving body
  have hargs : ∀ x ∈ params, x ∉ Expr.allFree args := by decide
  have hleaving : ∀ x ∈ params, x ∉ Expr.allFree leaving := by decide
  refine ⟨⟨_, _, _, _, rfl, rfl, by decide, by decide, ?_⟩, ⟨_, _, _, _, rfl, rfl, by decide, ?_⟩⟩
  · exact (invoked_shows_letting rfl (by decide) hargs body s).2 20 20 _ _ _ _ rfl rfl
  · exact (invoked_shows_letting rfl (by decide) hleaving body s).2 20 20 _ _ _ _ rfl rfl

end Eval

end Monkey

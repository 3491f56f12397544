import Monkey.Proofs.Syntax.Bounds
import Monkey.Proofs.Syntax.Nesting

/-! # Parsing on any tape comes to an end

From any place of any array of tokens, a statement, a block or an expression that is read
takes at least one token, and every round of a loop does. So the tokens left before the
next end of text bound how deeply they are nested, and the bounds of the rules with loops
are never used up.
-/

namespace Monkey

open Token (Kind)

namespace Tape

variable {t u w : Tape} {k m : Nat}

/-- Whether `k` tokens, none of them an end of text, lie between two places of a tape. -/
structure Forward (t : Tape) (k : Nat) (u : Tape) : Prop where
  tokens : u.tokens = t.tokens
  index : u.index = t.index + k
  left : u.left + k = t.left

theorem Forward.refl (t : Tape) : t.Forward 0 t :=
  ⟨rfl, rfl, rfl⟩

theorem Forward.trans (h : t.Forward k u) (h' : u.Forward m w) : t.Forward (k + m) w :=
  ⟨h'.tokens.trans h.tokens, by rw [h'.index, h.index, Nat.add_assoc],
    by rw [← h.left, ← h'.left]; omega⟩

theorem forward_next {token : Token} (h : t.tokens[t.index]? = some token)
    (hk : token.kind ≠ .eof) : t.Forward 1 { t with index := t.index + 1 } := by
  refine ⟨rfl, rfl, ?_⟩
  rw [← Array.getElem?_toList] at h
  obtain ⟨hlt, htoken⟩ := List.getElem?_eq_some_iff.1 h
  rw [left, left, List.drop_eq_getElem_cons hlt, htoken, List.findIdx_cons]
  simp [hk]

end Tape

namespace Descent

variable {α β σ : Type}

/-- From this place the reader ends, no further back, and `least` tokens further if it succeeds. -/
def Ends (p : Descent α) (t : Tape) (least : Nat) : Prop :=
  ∃ r k u, p.runOn t = some (r, u) ∧ t.Forward k u ∧ ∀ a, r = .ok a → least ≤ k

namespace Ends

variable {p : Descent α} {f : α → Descent β} {t : Tape} {m n : Nat}

theorem weaken (h : Ends p t m) (hn : n ≤ m) : Ends p t n := by
  obtain ⟨r, k, u, hrun, hforward, hok⟩ := h
  exact ⟨r, k, u, hrun, hforward, fun a ha => Nat.le_trans hn (hok a ha)⟩

theorem pure (a : α) : Ends (Pure.pure a : Descent α) t 0 :=
  ⟨.ok a, 0, t, rfl, .refl t, fun _ _ => Nat.le_refl _⟩

theorem isSome (h : Ends p t m) : (p.runOn t).isSome := by
  obtain ⟨r, k, u, hrun, -⟩ := h
  simp [hrun]

theorem throw (e : Halt) : Ends (MonadExcept.throw e : Descent α) t m :=
  ⟨.error e, 0, t, rfl, .refl t, nofun⟩

theorem bind (hp : Ends p t m) (hf : ∀ a u, u.left + m ≤ t.left → Ends (f a) u n) :
    Ends (p >>= f) t (m + n) := by
  obtain ⟨r, k, u, hrun, hforward, hok⟩ := hp
  cases r with
  | error e => exact ⟨.error e, k, u, by rw [runOn_bind, hrun]; rfl, hforward, nofun⟩
  | ok a =>
    have hk := hok a rfl
    obtain ⟨r', k', w, hrun', hforward', hok'⟩ := hf a u (by have := hforward.left; omega)
    refine ⟨r', k + k', w, by rw [runOn_bind, hrun]; exact hrun', hforward.trans hforward', ?_⟩
    exact fun b hb => Nat.add_le_add hk (hok' b hb)

/-- A part that takes a token leaves one less to be taken by the rest. -/
theorem take (hp : Ends p t 1) (hf : ∀ a u, u.left < t.left → Ends (f a) u (m - 1)) :
    Ends (p >>= f) t m :=
  (hp.bind hf).weaken (by omega)

/-- A part that need not take a token leaves all of it to the rest. -/
theorem pass (hp : Ends p t 0) (hf : ∀ a u, u.left ≤ t.left → Ends (f a) u m) :
    Ends (p >>= f) t m :=
  (hp.bind hf).weaken (by omega)

theorem peek_bind {f : Token → Descent β}
    (h : ∀ token, t.tokens[t.index]? = some token → Ends (f token) t m) :
    Ends (peek >>= f) t m := by
  cases htoken : t.tokens[t.index]? with
  | none =>
    refine ⟨.error .outside, 0, t, ?_, .refl t, nofun⟩
    rw [runOn_bind, runOn_peek_none htoken]
    rfl
  | some token =>
    obtain ⟨r, k, u, hrun, hend⟩ := h token htoken
    refine ⟨r, k, u, ?_, hend⟩
    rw [runOn_bind, runOn_peek htoken]
    exact hrun

theorem check (kind : Kind) : Ends (check kind) t 0 :=
  peek_bind fun _ _ => .pure _

theorem refuse (fault : Token → Nat → Fault) : Ends (refuse fault : Descent α) t m :=
  peek_bind fun _ _ => .throw _

theorem advance : Ends advance t 0 := by
  refine peek_bind fun token htoken => ?_
  by_cases hk : token.kind = .eof
  · rw [if_neg (not_not_intro hk)]
    exact .pure token
  · rw [if_pos hk]
    exact ⟨.ok token, 1, _, rfl, Tape.forward_next htoken hk, fun _ _ => Nat.zero_le _⟩

theorem expect {kinds : List Kind} (hkinds : .eof ∉ kinds) : Ends (expect kinds) t 1 := by
  refine peek_bind fun token htoken => ?_
  split
  · next hk =>
    have heof : token.kind ≠ .eof := fun he => hkinds (he ▸ hk)
    refine ⟨.ok token, 1, _, ?_, Tape.forward_next htoken heof, fun _ _ => Nat.le_refl _⟩
    rw [runOn_advance htoken, if_neg heof]
  · exact .refuse _

theorem map (hp : Ends p t m) (f : α → β) : Ends (f <$> p) t m := by
  rw [map_eq_pure_bind]
  exact hp.bind fun _ _ _ => .pure _

theorem push {item : Descent α} (h : Ends item t m) (xs : List α) : Ends (push item xs) t m :=
  h.bind fun _ _ _ => .pure _

/-! ## Loops -/

/-- A loop ends within more rounds than there are tokens left if each one takes a token. -/
theorem loop {guard : Descent Bool} {body : σ → Descent σ} {rounds : Nat}
    (hguard : ∀ u, Ends guard u 0) (hbody : ∀ x u, u.left ≤ t.left → Ends (body x) u 1)
    (hr : t.left < rounds) (x : σ) : Ends (loop guard body rounds x) t 0 := by
  induction rounds generalizing t x with
  | zero => omega
  | succ rounds ih =>
    refine (hguard t).pass fun again u hu => ?_
    cases again with
    | true =>
      refine (hbody x u hu).take fun y w hw => ?_
      exact ih (fun z v hv => hbody z v (by omega)) (by omega) y
    | false => exact .pure x

theorem checkNot (kinds : List Kind) : Ends (checkNot kinds) t 0 :=
  peek_bind fun _ _ => .pure _

theorem comma : Ends comma t 1 :=
  (expect (by decide)).take fun _ _ _ => .pure _

theorem binds (level : Precedence) : Ends (binds level) t 0 :=
  (check _).pass fun _ _ _ => peek_bind fun _ _ => .pure _

theorem parameter : Ends parameter t 1 :=
  (expect (by decide)).take fun _ _ _ => .pure _

theorem listed {item : Descent α} {rounds : Nat}
    (h : ∀ u, u.left ≤ t.left → Ends item u 1) (hr : t.left < rounds) :
    Ends (listed item rounds) t 0 := by
  refine (check _).pass fun closed u hu => ?_
  cases closed with
  | true => exact advance.pass fun _ _ _ => .pure _
  | false =>
    refine (h u hu).take fun x w hw => ?_
    refine .loop (fun _ => comma.weaken (by omega)) (fun xs v hv => ?_) (by omega) [x]
    exact (h v (by omega)).push xs

/-! ## Handlers -/

section Handlers

variable {expression : Precedence → Descent Expr} {block : Descent Block}
  {parameters : Descent (List String)} {arguments : Descent (List Expr)}

theorem sentence (he : ∀ level u, u.left ≤ t.left → Ends (expression level) u 1) :
    Ends (sentence expression) t 1 := by
  refine peek_bind fun token _ => ?_
  generalize token.kind = k
  cases k with
  | letWord =>
    refine (expect (by decide)).take fun _ u₁ h₁ => ?_
    refine (expect (by decide)).take fun name u₂ h₂ => ?_
    refine (expect (by decide)).take fun _ u₃ h₃ => ?_
    refine (he _ u₃ (by omega)).take fun value u₄ h₄ => ?_
    exact (expect (by decide)).take fun _ _ _ => .pure _
  | returnWord =>
    refine (expect (by decide)).take fun _ u₁ h₁ => ?_
    refine (he _ u₁ (by omega)).take fun value u₂ h₂ => ?_
    exact (expect (by decide)).take fun _ _ _ => .pure _
  | _ =>
    refine (he _ t (by omega)).take fun value u₁ h₁ => ?_
    refine (check _).pass fun found u₂ h₂ => ?_
    cases found with
    | true => exact advance.pass fun _ _ _ => .pure _
    | false => exact .pure _

theorem integer : Ends integer t 1 := by
  change Ends (Descent.expect [.int] >>= fun token => _) t 1
  refine (expect (by decide)).take fun token u _ => ?_
  split
  · exact .pure _
  · exact .throw _

theorem conditional (he : ∀ level u, u.left < t.left → Ends (expression level) u 1)
    (hb : ∀ u, u.left + 2 ≤ t.left → Ends block u 1) :
    Ends (conditional expression block) t 1 := by
  refine (expect (by decide)).take fun _ u₁ h₁ => ?_
  refine (expect (by decide)).take fun _ u₂ h₂ => ?_
  refine (he _ u₂ (by omega)).take fun condition u₃ h₃ => ?_
  refine (expect (by decide)).take fun _ u₄ h₄ => ?_
  refine (hb u₄ (by omega)).take fun consequence u₅ h₅ => ?_
  refine (check _).pass fun found u₆ h₆ => ?_
  cases found with
  | true =>
    refine advance.pass fun _ u₇ h₇ => ?_
    exact (hb u₇ (by omega)).take fun alternative _ _ => .pure _
  | false => exact .pure _

theorem start (he : ∀ level u, u.left < t.left → Ends (expression level) u 1)
    (hb : ∀ u, u.left + 2 ≤ t.left → Ends block u 1)
    (hp : ∀ u, u.left < t.left → Ends parameters u 1) :
    Ends (start expression block parameters) t 1 := by
  refine peek_bind fun token _ => ?_
  generalize token.kind = k
  cases k with
  | ident | string | trueWord | falseWord => exact (expect (by decide)).take fun _ _ _ => .pure _
  | int => exact integer
  | bang | minus =>
    refine (expect (by decide)).take fun _ u₁ h₁ => ?_
    exact (he _ u₁ h₁).take fun operand _ _ => .pure _
  | lparen =>
    refine (expect (by decide)).take fun _ u₁ h₁ => ?_
    refine (he _ u₁ h₁).take fun inner u₂ h₂ => ?_
    exact (expect (by decide)).take fun _ _ _ => .pure _
  | ifWord => exact conditional he hb
  | fnWord =>
    refine (expect (by decide)).take fun _ u₁ h₁ => ?_
    refine (hp u₁ h₁).take fun params u₂ h₂ => ?_
    exact (hb u₂ (by omega)).take fun body _ _ => .pure _
  | _ => exact .refuse _

theorem operation (he : ∀ level u, u.left < t.left → Ends (expression level) u 1)
    (left : Expr) : Ends (operation expression left) t 1 := by
  refine peek_bind fun _ _ => (expect (by decide)).take fun _ u₁ h₁ => ?_
  exact (he _ u₁ h₁).take fun right _ _ => .pure _

theorem application (ha : ∀ u, u.left < t.left → Ends arguments u 0) (callee : Expr) :
    Ends (application arguments callee) t 1 :=
  (expect (by decide)).take fun _ u₁ h₁ => (ha u₁ h₁).pass fun _ _ _ => .pure _

theorem extend (he : ∀ level u, u.left < t.left → Ends (expression level) u 1)
    (ha : ∀ u, u.left < t.left → Ends arguments u 0) (left : Expr) :
    Ends (extend expression arguments left) t 1 := by
  refine peek_bind fun token _ => ?_
  generalize token.kind = k
  cases k with
  | plus | minus | asterisk | slash | lt | gt | eq | notEq => exact operation he left
  | lparen => exact application ha left
  | _ => exact .refuse _

end Handlers

end Ends

/-! ## Depths that suffice -/

namespace Nested

variable {rounds depth : Nat} {t : Tape}

theorem parameters_ends (hr : t.left < rounds) : Ends (parameters rounds) t 1 :=
  (Ends.expect (by decide)).take fun _ _ _ => .listed (fun _ _ => .parameter) (by omega)

/--
What each rule needs of the depth, and what it then guarantees. A statement starts an expression
before a token is read, and a block is opened behind two tokens of an expression.
-/
structure DepthSuffices (rounds depth : Nat) : Prop where
  statement (t : Tape) : t.left < rounds → t.left + 2 ≤ depth → Ends (statement rounds depth) t 1
  block (t : Tape) : t.left < rounds → t.left + 2 ≤ depth → Ends (block rounds depth) t 1
  expression (level : Precedence) (t : Tape) :
    t.left < rounds → t.left + 1 ≤ depth → Ends (expression rounds depth level) t 1

theorem arguments_ends (ih : DepthSuffices rounds depth) (hr : t.left < rounds)
    (hd : t.left + 1 ≤ depth) : Ends (listed (expression rounds depth .lowest) rounds) t 0 :=
  .listed (fun u hu => ih.expression .lowest u (by omega) (by omega)) hr

theorem statement_ends (ih : DepthSuffices rounds depth) (hr : t.left < rounds)
    (hd : t.left + 2 ≤ depth + 1) : Ends (statement rounds (depth + 1)) t 1 :=
  .sentence fun level u hu => ih.expression level u (by omega) (by omega)

theorem block_ends (ih : DepthSuffices rounds depth) (hr : t.left < rounds)
    (hd : t.left + 2 ≤ depth + 1) : Ends (block rounds (depth + 1)) t 1 := by
  refine (Ends.expect (by decide)).take fun _ u₁ h₁ => ?_
  have hstatements (ss : List Stmt) (u : Tape) (hu : u.left ≤ u₁.left) :
      Ends (push (statement rounds depth) ss) u 1 :=
    (ih.statement u (by omega) (by omega)).push ss
  refine (Ends.loop (fun _ => .checkNot _) hstatements (by omega) []).pass fun body u₂ h₂ => ?_
  exact (Ends.expect (by decide)).take fun _ _ _ => .pure _

theorem expression_ends (ih : DepthSuffices rounds depth) (level : Precedence)
    (hr : t.left < rounds) (hd : t.left + 1 ≤ depth + 1) :
    Ends (expression rounds (depth + 1) level) t 1 := by
  have hexpression (level : Precedence) (u : Tape) (hu : u.left < t.left) :=
    ih.expression level u (by omega) (by omega)
  have hblock (u : Tape) (hu : u.left + 2 ≤ t.left) := ih.block u (by omega) (by omega)
  have hparameters (u : Tape) (hu : u.left < t.left) : Ends (parameters rounds) u 1 :=
    parameters_ends (by omega)
  refine (Ends.start hexpression hblock hparameters).take fun left u₁ h₁ => ?_
  refine .loop (fun _ => .binds level) (fun e u hu => ?_) (by omega) left
  refine .extend (fun level w hw => hexpression level w (by omega)) (fun w hw => ?_) e
  exact arguments_ends ih (by omega) (by omega)

theorem depthSuffices (rounds depth : Nat) : DepthSuffices rounds depth := by
  induction depth with
  | zero => constructor <;> intros <;> omega
  | succ depth ih =>
    constructor
    · exact fun _ => statement_ends ih
    · exact fun _ => block_ends ih
    · exact fun level _ => expression_ends ih level

theorem program_ends (hr : t.left < rounds) (hd : t.left + 2 ≤ depth) :
    Ends (program rounds depth) t 0 :=
  .loop (fun _ => .checkNot _)
    (fun ss u hu => ((depthSuffices rounds depth).statement u (by omega) (by omega)).push ss) hr []

end Nested

/-! ## Progress -/

/-- A success takes at least one token, and no end of text. -/
def Progresses (p : Descent α) : Prop :=
  ∀ t a u, p.runOn t = some (.ok a, u) → ∃ k, 0 < k ∧ t.Forward k u

/-- Every completed round of a loop takes at least one token. -/
def RoundsProgress (guard : Descent Bool) (body : σ → Descent σ) : Prop :=
  ∀ x t u y w, guard.runOn t = some (.ok true, u) → (body x).runOn u = some (.ok y, w) →
    ∃ k, 0 < k ∧ t.Forward k w

/-- A reader makes progress if it is consistent with one that takes a token and ends. -/
theorem Progresses.of_ends {p : Descent α} (h : ∀ t, ∃ q, Consistent p q ∧ Ends q t 1) :
    Progresses p := by
  intro t a u hrun
  obtain ⟨q, hq, r, k, w, hrun', hforward, hok⟩ := h t
  obtain ⟨rfl, rfl⟩ := Prod.mk.inj (hq t _ _ hrun hrun')
  exact ⟨k, hok a rfl, hforward⟩

theorem Progresses.push {item : Descent α} (h : Progresses item) (xs : List α) :
    Progresses (push item xs) := by
  intro t ys u hrun
  rw [Descent.push, runOn_bind] at hrun
  obtain ⟨⟨_ | x, w⟩, hitem, hrun⟩ := Option.bind_eq_some_iff.1 hrun <;> cases hrun
  exact h t x u hitem

theorem RoundsProgress.of_body {guard : Descent Bool} {body : σ → Descent σ}
    (hguard : ∀ t, Ends guard t 0) (hbody : ∀ x, Progresses (body x)) :
    RoundsProgress guard body := by
  intro x t u y w hrun hround
  obtain ⟨r, k, u', hrun', hforward, -⟩ := hguard t
  obtain ⟨rfl, rfl⟩ := Prod.mk.inj (Option.some.inj (hrun.symm.trans hrun'))
  obtain ⟨m, hm, hforward'⟩ := hbody x u y w hround
  exact ⟨k + m, by omega, hforward.trans hforward'⟩

theorem statement_progresses (n : Nat) : Progresses (statement n) :=
  .of_ends fun t => ⟨_, (consistentWith n).statement (t.left + 1) (t.left + 2),
    (Nested.depthSuffices _ _).statement t (by omega) (by omega)⟩

theorem expression_progresses (n : Nat) (level : Precedence) : Progresses (expression n level) :=
  .of_ends fun t => ⟨_, (consistentWith n).expression (t.left + 1) (t.left + 1) level,
    (Nested.depthSuffices _ _).expression level t (by omega) (by omega)⟩

namespace Nested

theorem statement_progresses (rounds depth : Nat) : Progresses (statement rounds depth) :=
  .of_ends fun t => ⟨_, (consistentAt rounds (t.left + 1) depth (t.left + 2)).statement,
    (depthSuffices _ _).statement t (by omega) (by omega)⟩

theorem expression_progresses (rounds depth : Nat) (level : Precedence) :
    Progresses (expression rounds depth level) :=
  .of_ends fun t => ⟨_, (consistentAt rounds (t.left + 1) depth (t.left + 1)).expression level,
    (depthSuffices _ _).expression level t (by omega) (by omega)⟩

theorem extend_progresses (rounds depth : Nat) (left : Expr) :
    Progresses (extend (expression rounds depth)
      (listed (expression rounds depth .lowest) rounds) left) := by
  refine .of_ends fun t => ?_
  have hconsistent := consistentAt rounds (t.left + 1) depth (t.left + 1)
  have hsuffices := depthSuffices (t.left + 1) (t.left + 1)
  have harguments := (hconsistent.expression .lowest).listed rounds (t.left + 1)
  refine ⟨_, .extend hconsistent.expression harguments left, ?_⟩
  refine .extend (fun level u hu => hsuffices.expression level u (by omega) (by omega))
    (fun u hu => ?_) left
  exact arguments_ends hsuffices (by omega) (by omega)

end Nested

end Descent

namespace Tape

open Descent

theorem performNested_ends {t : Tape} {rounds depth : Nat} (hr : t.left < rounds)
    (hd : t.left + 2 ≤ depth) (r : Request) : (t.performNested rounds depth r).isSome := by
  cases r with
  | program => exact ((Nested.program_ends hr hd).map _).isSome
  | expression level =>
    exact (((Nested.depthSuffices _ _).expression level t hr (by omega)).map _).isSome

theorem performNested_consistent {t : Tape} {rounds depth : Nat} {r : Request}
    {o o' : Except Halt Tree × Tape} (h : t.perform r = some o)
    (h' : t.performNested rounds depth r = some o') : o' = o := by
  cases r with
  | program =>
    have hprogram : Consistent (Descent.program t.budget) (Nested.program rounds depth) := by
      have hloop := (consistentWith t.budget).statements rounds depth [.eof] [] rounds
      simp only [List.nil_append, id_map'] at hloop
      exact hloop
    exact (hprogram.map _ t _ _ h h').symm
  | expression level =>
    have hexpression := (consistentWith t.budget).expression rounds depth level
    exact (hexpression.map _ t _ _ h h').symm

/--
Parsing makes progress and ends. From any place of any tape, a statement or an expression that is
read takes at least one token before the next end of text, and so does every completed round of a
loop: of the statements of a program or a block, of the parameters, of the arguments, and of what
continues an expression. With `n` tokens left before the next end of text, never more than `n + 2`
statements, blocks and expressions are open at one time, and no loop goes round more than `n`
times. So a parser answers every request on any tokens, after any other requests, and it answers
what it would if it gave up beyond that depth.
-/
theorem progress_within_depth :
    (∀ n, Progresses (statement n) ∧ ∀ level, Progresses (expression n level)) ∧
    (∀ rounds depth,
      RoundsProgress (checkNot [.eof]) (push (Nested.statement rounds depth)) ∧
      RoundsProgress (checkNot [.rbrace, .eof]) (push (Nested.statement rounds depth)) ∧
      RoundsProgress comma (push parameter) ∧
      RoundsProgress comma (push (Nested.expression rounds depth .lowest)) ∧
      ∀ level, RoundsProgress (binds level) (extend (Nested.expression rounds depth)
        (listed (Nested.expression rounds depth .lowest) rounds))) ∧
    (∀ (t : Tape) (rounds depth : Nat), t.left < rounds → t.left + 2 ≤ depth →
      ((Nested.statement rounds depth).runOn t).isSome ∧
      ((Nested.block rounds depth).runOn t).isSome ∧
      (∀ level, ((Nested.expression rounds depth level).runOn t).isSome) ∧
      ∀ r, (t.performNested rounds depth r).isSome) ∧
    ∀ ts rs, ∃ answers t, (ofTokens ts).performAll rs = some (answers, t) ∧
      ∀ r, (t.perform r).isSome ∧ ∀ rounds depth, t.left < rounds → t.left + 2 ≤ depth →
        t.performNested rounds depth r = t.perform r := by
  refine ⟨fun n => ⟨statement_progresses n, expression_progresses n⟩, fun rounds depth => ?_,
    fun t rounds depth hr hd => ?_, fun ts rs => ?_⟩
  · have hstatement := (Nested.statement_progresses rounds depth).push
    have hexpression := (Nested.expression_progresses rounds depth .lowest).push
    have hparameter : Progresses parameter := .of_ends fun t => ⟨_, .refl _, .parameter⟩
    refine ⟨.of_body (fun _ => .checkNot _) hstatement, .of_body (fun _ => .checkNot _) hstatement,
      .of_body (fun _ => Ends.comma.weaken (by omega)) hparameter.push,
      .of_body (fun _ => Ends.comma.weaken (by omega)) hexpression, fun level => ?_⟩
    exact .of_body (fun _ => .binds level) (Nested.extend_progresses rounds depth)
  · have hsuffices := Nested.depthSuffices rounds depth
    exact ⟨(hsuffices.statement t hr hd).isSome, (hsuffices.block t hr hd).isSome,
      fun level => (hsuffices.expression level t hr (by omega)).isSome, performNested_ends hr hd⟩
  · obtain ⟨t, ht, -, hat⟩ := performAll_of_at (at_ofTokens ts) rs
    refine ⟨_, t, ht, fun r => ?_⟩
    obtain ⟨u, hu, -⟩ := perform_of_at hat r
    refine ⟨by simp [hu], fun rounds depth hr hd => ?_⟩
    obtain ⟨o, ho⟩ := Option.isSome_iff_exists.1 (performNested_ends hr hd r)
    rw [ho, hu, performNested_consistent hu ho]

end Tape

end Monkey

import Monkey.Proofs.Syntax.Bounds

/-! # Faults are about the token at their index

Whatever a parser has been through, the token that its fault is about is the one at the
index that the fault carries, and could not stand there: it is of no expected kind, or
begins no expression, or is an integer token whose text is no integer. The index of the
parser stays on that token, or right behind it after an integer.
-/

namespace Monkey

open Token (Cursor Kind)

namespace Fault

/--
Whether a fault is about the token at its index among these tokens, and the next token to be read
is that one or, after an integer, the one behind it.
-/
def Describes (tokens : Array Token) (next : Nat) : Fault → Prop
  | unexpectedToken expected found i =>
    tokens[i]? = some found ∧ found.kind ∉ expected ∧ next = i
  | noExpression found i =>
    tokens[i]? = some found ∧ next = i ∧
      ∀ σ e u us, u.kind = found.kind → ¬ Derives (.expr σ e) (u :: us)
  | invalidInteger literal i =>
    next = i + 1 ∧ ∃ found, tokens[i]? = some found ∧ found.kind = .int ∧
      found.literal = literal ∧ Integer.ofNumeral? literal = none
  | _ => False

end Fault

namespace Descent

variable {α β : Type}

/-- A fault that `p` ends with on a tape describes the tape that it leaves. -/
def BlamesOn (t : Tape) (p : Descent α) : Prop :=
  ∀ e u, p.runOn t = some (.error (.fault e), u) → e.Describes u.tokens u.index

/-- Every fault of `p` describes the tape that it leaves. -/
def Blames (p : Descent α) : Prop :=
  ∀ t, BlamesOn t p

namespace BlamesOn

variable {t : Tape} {p : Descent α} {f : Token → Descent β}

theorem pure (a : α) : BlamesOn t (Pure.pure a) := by
  intro e u hr
  cases hr

theorem peek_bind (h : ∀ token, t.tokens[t.index]? = some token → BlamesOn t (f token)) :
    BlamesOn t (peek >>= f) := by
  intro e u hr
  rw [runOn_bind] at hr
  cases htoken : t.tokens[t.index]? with
  | none =>
    rw [runOn_peek_none htoken] at hr
    cases hr
  | some token =>
    rw [runOn_peek htoken] at hr
    exact h token htoken e u hr

theorem bind {f : α → Descent β} (hp : BlamesOn t p)
    (hf : ∀ a u, p.runOn t = some (.ok a, u) → BlamesOn u (f a)) : BlamesOn t (p >>= f) := by
  intro e u hr
  rw [runOn_bind] at hr
  obtain ⟨⟨h | a, t'⟩, hrun, hr⟩ := Option.bind_eq_some_iff.1 hr
  · cases hr
    exact hp e u hrun
  · exact hf a t' hrun e u hr

theorem refuse {token : Token} {fault : Token → Nat → Fault}
    (htoken : t.tokens[t.index]? = some token)
    (h : (fault token t.index).Describes t.tokens t.index) :
    BlamesOn t (refuse fault : Descent α) := by
  refine peek_bind fun token' htoken' => ?_
  obtain rfl : token = token' := Option.some.inj (htoken.symm.trans htoken')
  intro e u hr
  cases hr
  exact h

theorem advance : BlamesOn t advance := by
  refine peek_bind fun token htoken => ?_
  intro e u hr
  split at hr <;> cases hr

theorem expect (kinds : List Kind) : BlamesOn t (expect kinds) := by
  refine peek_bind fun token htoken => ?_
  split
  · exact advance
  · next hk => exact refuse htoken ⟨htoken, hk, rfl⟩

end BlamesOn

/-- A token that was expected is read, and it is no end of text. -/
theorem runOn_expect_ok {kinds : List Kind} (hkinds : .eof ∉ kinds) {t u : Tape} {token : Token}
    (h : (expect kinds).runOn t = some (.ok token, u)) :
    token.kind ∈ kinds ∧ t.tokens[t.index]? = some token ∧
      u = { t with index := t.index + 1 } := by
  change (peek >>= _).runOn t = _ at h
  rw [runOn_bind] at h
  cases htoken : t.tokens[t.index]? with
  | none =>
    rw [runOn_peek_none htoken] at h
    cases h
  | some found =>
    rw [runOn_peek htoken] at h
    simp only [Option.bind_some] at h
    split at h
    · next hk =>
      have heof : found.kind ≠ .eof := fun he => hkinds (he ▸ hk)
      rw [runOn_advance htoken, if_neg heof] at h
      cases h
      exact ⟨hk, rfl, rfl⟩
    · change (peek >>= _).runOn t = _ at h
      rw [runOn_bind, runOn_peek htoken] at h
      cases h

namespace Blames

variable {p : Descent α} {f : α → Descent β}

theorem outOfBudget : Blames (outOfBudget : Descent α) := by
  intro t e u hr
  cases hr

theorem pure (a : α) : Blames (Pure.pure a : Descent α) := fun _ => .pure a

theorem bind (hp : Blames p) (hf : ∀ a, Blames (f a)) : Blames (p >>= f) :=
  fun t => (hp t).bind fun a u _ => hf a u

theorem advance : Blames advance := fun _ => .advance

theorem expect (kinds : List Kind) : Blames (expect kinds) := fun _ => .expect kinds

theorem check (kind : Kind) : Blames (check kind) :=
  fun _ => .peek_bind fun _ _ => .pure _

end Blames

/-! ## Handlers -/

theorem integer_blames : Blames integer := by
  intro t
  change BlamesOn t (Descent.expect [.int] >>= fun token => _)
  refine (BlamesOn.expect _).bind fun token u hu => ?_
  obtain ⟨hk, htoken, rfl⟩ := runOn_expect_ok (by decide) hu
  cases hn : Integer.ofNumeral? token.literal with
  | some n => exact .pure _
  | none =>
    rintro e w ⟨⟩
    exact ⟨rfl, token, htoken, by simpa using hk, rfl, hn⟩

theorem moreParameters_blames (n : Nat) : Blames (moreParameters n) := by
  induction n with
  | zero => exact .outOfBudget
  | succ n ih =>
    refine (Blames.expect _).bind fun name => (Blames.expect _).bind fun separator => ?_
    split
    · exact ih.bind fun _ => .pure _
    · exact .pure _

theorem parameters_blames (n : Nat) : Blames (parameters n) := by
  refine (Blames.expect _).bind fun _ => (Blames.check _).bind fun found => ?_
  split
  · exact Blames.advance.bind fun _ => .pure _
  · exact moreParameters_blames n

section Handlers

variable {expression : Precedence → Descent Expr} {block : Descent Block}
  {parameters : Descent (List String)} {arguments : Descent (List Expr)} {k : Kind}

theorem conditional_blames (he : ∀ level, Blames (expression level)) (hb : Blames block) :
    Blames (conditional expression block) := by
  refine (Blames.expect _).bind fun _ => (Blames.expect _).bind fun _ => ?_
  refine (he _).bind fun condition => (Blames.expect _).bind fun _ => ?_
  refine hb.bind fun consequence => (Blames.check _).bind fun found => ?_
  split
  · exact Blames.advance.bind fun _ => hb.bind fun _ => .pure _
  · exact .pure _

theorem beginning?_blames (he : ∀ level, Blames (expression level)) (hb : Blames block)
    (hp : Blames parameters) {handler : Descent Expr}
    (h : beginning? expression block parameters k = some handler) : Blames handler := by
  unfold beginning? at h
  split at h <;> cases h
  · exact (Blames.expect _).bind fun _ => .pure _
  · exact integer_blames
  · exact (Blames.expect _).bind fun _ => .pure _
  · exact (Blames.expect _).bind fun _ => .pure _
  · exact (Blames.expect _).bind fun _ => .pure _
  · exact (Blames.expect _).bind fun _ => (he _).bind fun _ => .pure _
  · exact (Blames.expect _).bind fun _ => (he _).bind fun _ => .pure _
  · refine (Blames.expect _).bind fun _ => (he _).bind fun inner => ?_
    exact (Blames.expect _).bind fun _ => .pure _
  · exact conditional_blames he hb
  · exact (Blames.expect _).bind fun _ => hp.bind fun _ => hb.bind fun _ => .pure _

/-- A token without a handler begins no expression. -/
theorem not_derives_of_beginning? (h : beginning? expression block parameters k = none)
    {σ : Stratum} {e : Expr} {u : Token} {us : List Token} (hu : u.kind = k) :
    ¬ Derives (.expr σ e) (u :: us) := by
  intro hd
  obtain ⟨t, ts, heq, hmem⟩ := hd.begins
  cases heq
  rw [hu] at hmem
  simp only [Derives.beginning, List.mem_cons, List.not_mem_nil, or_false] at hmem
  rcases hmem with rfl | rfl | rfl | rfl | rfl | rfl | rfl | rfl | rfl | rfl <;> cases h

theorem operation_blames (he : ∀ level, Blames (expression level)) (left : Expr) :
    Blames (operation expression left) := by
  intro t
  refine .peek_bind fun token _ => ?_
  exact (BlamesOn.expect _).bind fun _ u _ => (he _ u).bind fun _ _ _ => .pure _

theorem continuing?_blames (he : ∀ level, Blames (expression level)) (ha : Blames arguments)
    {handler : Expr → Descent Expr} (h : continuing? expression arguments k = some handler)
    (left : Expr) : Blames (handler left) := by
  unfold continuing? at h
  split at h <;> cases h
  all_goals first
    | exact operation_blames he left
    | exact (Blames.expect _).bind fun _ => ha.bind fun _ => .pure _

/-- A token that binds has a handler. -/
theorem continuing?_ne_none {level : Precedence} (h : level < .ofKind k) :
    continuing? expression arguments k ≠ none := by
  intro hnone
  rcases operator_or_lparen h with ⟨op, rfl⟩ | rfl
  · cases op <;> cases hnone
  · cases hnone

end Handlers

/-! ## The rules -/

/-- Every rule with budget `n` blames the right token. -/
structure BlamesWith (n : Nat) : Prop where
  statement : Blames (statement n)
  statements (closers : List Kind) : Blames (statements n closers)
  block : Blames (block n)
  expression (level : Precedence) : Blames (expression n level)
  operand : Blames (operand n)
  continuation (level : Precedence) (left : Expr) : Blames (continuation n level left)
  arguments : Blames (arguments n)
  moreArguments : Blames (moreArguments n)

section Step

variable {n : Nat}

theorem statement_blames (ih : BlamesWith n) : Blames (statement (n + 1)) := by
  intro t
  refine .peek_bind fun token _ => ?_
  split
  · refine ((Blames.expect _).bind fun _ => (Blames.expect _).bind fun name => ?_) t
    refine (Blames.expect _).bind fun _ => (ih.expression _).bind fun value => ?_
    exact (Blames.expect _).bind fun _ => .pure _
  · refine ((Blames.expect _).bind fun _ => (ih.expression _).bind fun value => ?_) t
    exact (Blames.expect _).bind fun _ => .pure _
  · refine ((ih.expression _).bind fun value => (Blames.check _).bind fun found => ?_) t
    split
    · exact Blames.advance.bind fun _ => .pure _
    · exact .pure _

theorem statements_blames (ih : BlamesWith n) (closers : List Kind) :
    Blames (statements (n + 1) closers) := by
  intro t
  refine .peek_bind fun token _ => ?_
  split
  · exact .pure _
  · exact (ih.statement.bind fun s => (ih.statements closers).bind fun _ => .pure _) t

theorem block_blames (ih : BlamesWith n) : Blames (block (n + 1)) := by
  refine (Blames.expect _).bind fun _ => (ih.statements _).bind fun body => ?_
  exact (Blames.expect _).bind fun _ => .pure _

theorem operand_blames (ih : BlamesWith n) : Blames (operand (n + 1)) := by
  intro t
  refine .peek_bind fun token htoken => ?_
  split
  · next handler h =>
    exact beginning?_blames ih.expression ih.block (parameters_blames n) h t
  · next h =>
    exact .refuse htoken ⟨htoken, rfl, fun _ _ _ _ hu => not_derives_of_beginning? h hu⟩

theorem continuation_blames (ih : BlamesWith n) (level : Precedence) (left : Expr) :
    Blames (continuation (n + 1) level left) := by
  intro t
  refine (Blames.check _ t).bind fun ended u _ => .peek_bind fun token htoken => ?_
  split
  · next hlevel =>
    split
    · next handler h =>
      refine (continuing?_blames ih.expression ih.arguments h left u).bind fun e w _ => ?_
      exact ih.continuation level e w
    · next h => exact absurd h (continuing?_ne_none hlevel.2)
  · exact .pure _

theorem arguments_blames (ih : BlamesWith n) : Blames (arguments (n + 1)) := by
  refine (Blames.check _).bind fun found => ?_
  split
  · exact Blames.advance.bind fun _ => .pure _
  · exact ih.moreArguments

theorem moreArguments_blames (ih : BlamesWith n) : Blames (moreArguments (n + 1)) := by
  refine (ih.expression _).bind fun arg => (Blames.expect _).bind fun separator => ?_
  split
  · exact ih.moreArguments.bind fun _ => .pure _
  · exact .pure _

end Step

theorem blamesWith (n : Nat) : BlamesWith n := by
  induction n with
  | zero => constructor <;> intros <;> exact .outOfBudget
  | succ n ih =>
    exact ⟨statement_blames ih, statements_blames ih, block_blames ih,
      fun level => ih.operand.bind fun left => ih.continuation level left, operand_blames ih,
      continuation_blames ih, arguments_blames ih, moreArguments_blames ih⟩

end Descent

namespace Tape

theorem describes_of_perform {t u : Tape} {r : Request} {e : Fault}
    (h : t.perform r = some (.error (.fault e), u)) : e.Describes u.tokens u.index := by
  have hblames := Descent.blamesWith t.budget
  cases r with
  | program =>
    rw [perform, Descent.runOn_map] at h
    obtain ⟨⟨r | p, w⟩, hrun, hend⟩ := Option.map_eq_some_iff.1 h
    · cases hend
      exact hblames.statements [.eof] t e u hrun
    · cases hend
  | expression level =>
    rw [perform, Descent.runOn_map] at h
    obtain ⟨⟨r | p, w⟩, hrun, hend⟩ := Option.map_eq_some_iff.1 h
    · cases hend
      exact hblames.expression level t e u hrun
    · cases hend

/--
A request that fails, whatever was asked for before it, fails with a fault that describes a token of
the array, and the parser goes on from that token, or behind it after an integer.
-/
theorem perform_describes {ts : List Token} {rs : List Request} {answers : List (Except Halt Tree)}
    {t u : Tape} {r : Request} {halt : Halt} (h : (ofTokens ts).performAll rs = some (answers, t))
    (hr : t.perform r = some (.error halt, u)) :
    ∃ e, halt = .fault e ∧ e.Describes (ofTokens ts).tokens u.index := by
  obtain ⟨t', ht', htokens, hat⟩ := performAll_of_at (at_ofTokens ts) rs
  rw [h] at ht'
  cases ht'
  obtain ⟨u', hu', htokens', -⟩ := perform_of_at hat r
  have hinside := ne_outside_of_answerAt (answersAt (.ofTokens ts) rs).2 r
  rw [hr] at hu'
  obtain ⟨hanswer, rfl⟩ := Prod.mk.inj (Option.some.inj hu')
  cases halt with
  | outside => exact absurd hanswer.symm hinside
  | fault e =>
    rw [← htokens, ← htokens']
    exact ⟨e, rfl, describes_of_perform hr⟩

/-- A `let` that goes on with an integer, and then the integer itself, which is too large. -/
theorem perform_describes_integer :
    let literal := "9223372036854775808"
    let ts : List Token := [⟨.letWord, "let", .start⟩, ⟨.int, literal, ⟨1, 5⟩⟩]
    let found : Except Halt Tree :=
      .error (.fault (.unexpectedToken [.ident] ⟨.int, literal, ⟨1, 5⟩⟩ 1))
    ∃ t u, (ofTokens ts).performAll [.program] = some ([found], t) ∧
      t.perform (.expression .lowest) = some (.error (.fault (.invalidInteger literal 1)), u) ∧
      (Fault.invalidInteger literal 1).Describes (ofTokens ts).tokens u.index ∧ u.index = 2 := by
  refine ⟨⟨_, 1⟩, ⟨_, 2⟩, rfl, rfl, ?_, rfl⟩
  obtain ⟨e, he, h⟩ := @perform_describes
    [⟨.letWord, "let", .start⟩, ⟨.int, "9223372036854775808", ⟨1, 5⟩⟩] [.program] _ _ _
    (.expression .lowest) _ rfl rfl
  cases he
  exact h

end Tape

end Monkey

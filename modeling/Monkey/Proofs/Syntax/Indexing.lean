import Monkey.Parser.Tape
import Monkey.Proofs.Syntax.EarliestFault

/-! # Parsing by index follows the cursor

A tape stands where a cursor does if the tokens from its index on are those that the
cursor has before it, up to the end of text, whatever comes after that. From there the
rules by index do what the parsers of the grammar do and leave the tape where the
cursor stops: so they end, and never look outside of the array.
-/

namespace Monkey

open Token (Cursor Kind)

namespace Tape

/-- Whether a tape stands where a cursor does, with no end of text on the way to it. -/
structure At (t : Tape) (c : Cursor) : Prop where
  index : t.index = c.index
  split : ∃ before after, t.tokens.toList = before ++ (c.pending ++ c.stop :: after) ∧
    before.length = t.index ∧ ∀ u ∈ before, u.kind ≠ .eof

namespace At

variable {t : Tape} {c : Cursor}

/-- The token at the index is the one at the cursor. -/
theorem lookup (h : t.At c) : t.tokens[t.index]? = some c.peek := by
  obtain ⟨before, after, htokens, hlength, -⟩ := h.split
  rw [← Array.getElem?_toList, htokens, ← hlength, List.getElem?_append_right (Nat.le_refl _),
    Nat.sub_self]
  cases hpending : c.pending with
  | nil => simp [Cursor.peek, hpending]
  | cons u us => simp [Cursor.peek, hpending]

theorem advance (h : t.At c) (hc : c.peek.kind ≠ .eof) :
    At { t with index := t.index + 1 } c.advance := by
  obtain ⟨before, after, htokens, hlength, hbefore⟩ := h.split
  obtain ⟨u, us, hpending⟩ := List.exists_cons_of_length_pos (Cursor.left_pos_iff.2 hc)
  have hpeek : c.peek = u := by simp [Cursor.peek, hpending]
  constructor
  · simp [Cursor.index_advance, hc, h.index]
  · refine ⟨before ++ [u], after, ?_, by simp [hlength], ?_⟩
    · simp [htokens, Cursor.advance, hpending]
    · intro w hw
      rcases List.mem_append.1 hw with hw | hw
      · exact hbefore w hw
      · rw [List.mem_singleton.1 hw, ← hpeek]
        exact hc

/-- How far the first end of text is away. -/
theorem findIdx_eq (h : t.At c) :
    t.tokens.toList.findIdx (·.kind = .eof) = t.index + c.left := by
  obtain ⟨before, after, htokens, hlength, hbefore⟩ := h.split
  have hnone (us : List Token) (hus : ∀ u ∈ us, u.kind ≠ .eof) (vs : List Token) :
      (us ++ vs).findIdx (·.kind = .eof) = us.length + vs.findIdx (·.kind = .eof) := by
    rw [List.findIdx_append, if_neg, Nat.add_comm]
    rw [List.findIdx_lt_length]
    simpa using hus
  rw [htokens, hnone before hbefore, hnone c.pending c.pending_ne_eof, hlength,
    List.findIdx_cons]
  simp [c.stop_eq_eof, Cursor.left]

theorem left_lt_size (h : t.At c) : t.index + c.left < t.tokens.size := by
  obtain ⟨before, after, htokens, hlength, -⟩ := h.split
  rw [← Array.length_toList, htokens, ← hlength, Cursor.left]
  simp

end At

theorem at_ofTokens (ts : List Token) : (ofTokens ts).At (.ofTokens ts) := by
  obtain ⟨after, hclosed⟩ := Cursor.closed_eq ts
  exact ⟨rfl, [], after, by simpa [ofTokens] using hclosed, rfl, nofun⟩

/-- What comes after the first end of text does not say where a tape stands. -/
theorem at_ofTokens_of_agree {ts us before after after' : List Token} {e : Token}
    (hbefore : ∀ u ∈ before, u.kind ≠ .eof) (he : e.kind = .eof)
    (hts : Cursor.closed ts = before ++ e :: after)
    (hus : Cursor.closed us = before ++ e :: after') : (ofTokens us).At (.ofTokens ts) := by
  obtain ⟨rest, hclosed⟩ := Cursor.closed_eq ts
  have hends (vs : List Token) (e : Token) (he : e.kind = .eof) (ws : List Token)
      (hvs : ∀ v ∈ vs, v.kind ≠ .eof) :
      (vs ++ e :: ws).takeWhile (·.kind ≠ .eof) = vs := by
    rw [Cursor.takeWhile_append_ne_eof hvs]
    simp [he]
  have hpending : (Cursor.ofTokens ts).pending = before := by
    rw [← hends _ _ he after hbefore, ← hts, hclosed]
    exact (hends _ _ (Cursor.ofTokens ts).stop_eq_eof rest (Cursor.ofTokens ts).pending_ne_eof).symm
  have hstop : (Cursor.ofTokens ts).stop = e := by
    rw [hclosed, hpending] at hts
    exact (List.cons.inj (List.append_cancel_left hts)).1
  refine ⟨rfl, [], after', ?_, rfl, nofun⟩
  rw [hpending, hstop]
  simpa [ofTokens] using hus

end Tape

namespace Descent

variable {α β : Type}

theorem runOn_bind (p : Descent α) (f : α → Descent β) (t : Tape) :
    (p >>= f).runOn t = (p.runOn t).bind fun
      | (.ok a, t') => (f a).runOn t'
      | (.error e, t') => some (.error e, t') := by
  simp only [runOn, ExceptT.run_bind, StateT.run_bind, Option.bind_eq_bind]
  congr 1
  funext ⟨r, t'⟩
  cases r <;> rfl

theorem runOn_get_bind (f : Tape → Descent β) (t : Tape) :
    (get >>= f).runOn t = (f t).runOn t := rfl

theorem runOn_peek {t : Tape} {token : Token} (h : t.tokens[t.index]? = some token) :
    peek.runOn t = some (.ok token, t) := by
  rw [peek, runOn_get_bind, h]
  rfl

/-- A token is looked up before anything else is done with it. -/
theorem runOn_peek_none {t : Tape} (h : t.tokens[t.index]? = none) :
    peek.runOn t = some (.error .outside, t) := by
  rw [peek, runOn_get_bind, h]
  rfl

theorem runOn_advance {t : Tape} {token : Token} (h : t.tokens[t.index]? = some token) :
    advance.runOn t = some (.ok token,
      if token.kind = .eof then t else { t with index := t.index + 1 }) := by
  change (peek >>= _).runOn t = _
  rw [runOn_bind, runOn_peek h]
  by_cases heof : token.kind = .eof
  · simp only [Option.bind_some, heof, ne_eq, not_true_eq_false, if_true, if_false]
    rfl
  · simp only [Option.bind_some, heof, ne_eq, not_false_eq_true, if_true, if_false]
    rfl

/-- Where the tape stands as the cursor `c`, `p` does what `q` does from `c`. -/
def FollowsAt (c : Cursor) (p : Descent α) (q : Parser α) : Prop :=
  ∀ t, t.At c → ∀ r c', q.runAt c = some (r, c') →
    ∃ t', p.runOn t = some (r.mapError .fault, t') ∧ t'.tokens = t.tokens ∧ t'.At c'

namespace FollowsAt

variable {c : Cursor} {p : Descent α} {q : Parser α} {f : α → Descent β} {g : α → Parser β}

theorem outOfBudget : FollowsAt c p (Parser.outOfBudget : Parser α) := by
  rintro t - r c' hr
  cases hr

theorem pure (a : α) : FollowsAt c (Pure.pure a) (Pure.pure a) := by
  rintro t ht r c' hr
  cases hr
  exact ⟨t, rfl, rfl, ht⟩

theorem bind (hp : FollowsAt c p q) (hf : ∀ a d, FollowsAt d (f a) (g a)) :
    FollowsAt c (p >>= f) (q >>= g) := by
  intro t ht r c' hr
  rw [Parser.runAt_bind] at hr
  obtain ⟨⟨r₁, d⟩, h₁, hr⟩ := Option.bind_eq_some_iff.1 hr
  obtain ⟨t₁, hrun, htokens, hat⟩ := hp t ht r₁ d h₁
  cases r₁ with
  | error e =>
    cases hr
    exact ⟨t₁, by rw [runOn_bind, hrun]; rfl, htokens, hat⟩
  | ok a =>
    obtain ⟨t₂, hrun₂, htokens₂, hat₂⟩ := hf a d t₁ hat r c' hr
    exact ⟨t₂, by rw [runOn_bind, hrun]; exact hrun₂, htokens₂.trans htokens, hat₂⟩

theorem peek_bind {f : Token → Descent β} {q : Parser β} (h : FollowsAt c (f c.peek) q) :
    FollowsAt c (peek >>= f) q := by
  intro t ht r c' hr
  obtain ⟨t', hrun, ht'⟩ := h t ht r c' hr
  exact ⟨t', by rw [runOn_bind, runOn_peek ht.lookup]; exact hrun, ht'⟩

/-- Both look at the current token. -/
theorem peeks_bind {f : Token → Descent β} {g : Token → Parser β}
    (h : FollowsAt c (f c.peek) (g c.peek)) :
    FollowsAt c (peek >>= f) (Parser.peek >>= g) :=
  peek_bind h

theorem seen_bind {kind : Kind} {f : Bool → Descent β} {q : Parser β}
    (h : FollowsAt c (f (c.peek.kind = kind)) q) : FollowsAt c (check kind >>= f) q := by
  have hcheck : check kind >>= f = Descent.peek >>= fun t => f (t.kind = kind) := by
    simp only [check, bind_assoc, pure_bind]
  rw [hcheck]
  exact peek_bind h

theorem refuse (fault : Token → Nat → Fault) :
    FollowsAt c (refuse fault : Descent α) (Parser.refuse fault) := by
  rintro t ht r c' hr
  cases hr
  refine ⟨t, ?_, rfl, ht⟩
  change (Descent.peek >>= _).runOn t = _
  rw [runOn_bind, runOn_peek ht.lookup, ← ht.index]
  rfl

theorem advance_bind {f : Token → Descent β} {g : Unit → Parser β} (hc : c.peek.kind ≠ .eof)
    (h : FollowsAt c.advance (f c.peek) (g ())) :
    FollowsAt c (advance >>= f) (Parser.advance >>= g) := by
  intro t ht r c' hr
  obtain ⟨t', hrun, ht'⟩ := h _ (ht.advance hc) r c' hr
  exact ⟨t', by rw [runOn_bind, runOn_advance ht.lookup, if_neg hc]; exact hrun, ht'⟩

/-- A token that was seen to be of a kind is read as one of that kind. -/
theorem expect_bind {kinds : List Kind} {f : Token → Descent β} {g : Unit → Parser β}
    (hc : c.peek.kind ∈ kinds) (hkinds : .eof ∉ kinds)
    (h : FollowsAt c.advance (f c.peek) (g ())) :
    FollowsAt c (expect kinds >>= f) (Parser.advance >>= g) := by
  have hexpect : expect kinds >>= f = Descent.peek >>= fun t =>
      (if t.kind ∈ kinds then advance else Descent.refuse (.unexpectedToken kinds)) >>= f :=
    bind_assoc _ _ _
  rw [hexpect]
  refine peek_bind ?_
  rw [if_pos hc]
  exact advance_bind (fun heof => hkinds (heof ▸ hc)) h

theorem expect {kinds : List Kind} (hkinds : .eof ∉ kinds) :
    FollowsAt c (expect kinds) (Parser.expect kinds) := by
  refine peeks_bind ?_
  split
  · next hc =>
    have hadvance : advance = advance >>= Pure.pure := (bind_pure _).symm
    rw [hadvance]
    exact advance_bind (fun heof => hkinds (heof ▸ hc)) (.pure _)
  · exact refuse _

/-- A token that is checked for first is read in one go by the cursor. -/
theorem check_bind {kind : Kind} (hkind : kind ≠ .eof) {p₁ p₂ : Descent β} {g : Bool → Parser β}
    (htrue : FollowsAt c.advance p₁ (g true)) (hfalse : FollowsAt c p₂ (g false)) :
    FollowsAt c (check kind >>= fun found => if found = true then advance >>= fun _ => p₁ else p₂)
      (Parser.accept kind >>= g) := by
  have hcheck : (check kind >>= fun found =>
      if found = true then advance >>= fun _ => p₁ else p₂) = Descent.peek >>= fun t =>
        if t.kind = kind then advance >>= fun _ => p₁ else p₂ := by
    simp only [check, bind_assoc, pure_bind, decide_eq_true_eq]
  have haccept : (Parser.accept kind >>= g).runAt c = (if c.peek.kind = kind then
      Parser.advance >>= fun _ => g true else g false).runAt c := by
    rw [Parser.runAt_bind, Parser.runAt_accept]
    split
    · next hc => simp only [hc, decide_true]; rfl
    · next hc => simp only [hc, decide_false]; rfl
  intro t ht r c' hr
  rw [haccept] at hr
  rw [hcheck]
  refine peek_bind ?_ t ht r c' hr
  split
  · next hc => exact advance_bind (fun heof => hkind (hc ▸ heof)) htrue
  · exact hfalse

theorem throw (e : Fault) :
    FollowsAt c (MonadExcept.throw (Halt.fault e) : Descent α) (MonadExcept.throw e) := by
  rintro t ht r c' hr
  cases hr
  exact ⟨t, rfl, rfl, ht⟩

theorem get_bind {f : Tape → Descent β} {g : Cursor → Parser β}
    (h : ∀ t, t.At c → FollowsAt c (f t) (g c)) : FollowsAt c (get >>= f) (get >>= g) :=
  fun t ht => h t ht t ht

theorem integer : FollowsAt c integer Parser.integer := by
  refine get_bind fun t ht => ?_
  rw [ht.index]
  refine (expect (by decide)).bind fun token d => ?_
  cases Integer.ofNumeral? token.literal with
  | some n => exact .pure _
  | none => exact .throw _

end FollowsAt

/-! ## The rules -/

theorem moreParameters_follows (n : Nat) (c : Cursor) :
    FollowsAt c (moreParameters n) (Parser.moreParameters n) := by
  induction n generalizing c with
  | zero => exact .outOfBudget
  | succ n ih =>
    refine (FollowsAt.expect (by decide)).bind fun name d => ?_
    refine (FollowsAt.expect (by decide)).bind fun separator d => ?_
    split
    · exact (ih d).bind fun _ _ => .pure _
    · exact .pure _

theorem parameters_follows (n : Nat) (c : Cursor) :
    FollowsAt c (parameters n) (Parser.parameters n) := by
  refine (FollowsAt.expect (by decide)).bind fun _ d => ?_
  exact .check_bind (by decide) (.pure _) (moreParameters_follows n d)

/-- Each rule with budget `n` does what the parser of the grammar with that budget does. -/
structure FollowsWith (n : Nat) : Prop where
  statement (c : Cursor) : FollowsAt c (statement n) (Parser.statement n)
  statements (closers : List Kind) (c : Cursor) :
    FollowsAt c (statements n closers) (Parser.statements n closers)
  block (c : Cursor) : FollowsAt c (block n) (Parser.block n)
  expression (level : Precedence) (c : Cursor) :
    FollowsAt c (expression n level) (Parser.expression n level)
  operand (c : Cursor) : FollowsAt c (operand n) (Parser.operand n)
  continuation (level : Precedence) (left : Expr) (c : Cursor) :
    FollowsAt c (continuation n level left) (Parser.continuation n level left)
  arguments (c : Cursor) : FollowsAt c (arguments n) (Parser.arguments n)
  moreArguments (c : Cursor) : FollowsAt c (moreArguments n) (Parser.moreArguments n)

section Step

variable {n : Nat} {c : Cursor}

theorem statement_follows (ih : FollowsWith n) :
    FollowsAt c (statement (n + 1)) (Parser.statement (n + 1)) := by
  refine .peeks_bind ?_
  generalize hk : c.peek.kind = k
  cases k with
  | letWord =>
    refine .expect_bind (by simp [hk]) (by decide) ?_
    refine (FollowsAt.expect (by decide)).bind fun name _ => ?_
    refine (FollowsAt.expect (by decide)).bind fun _ d => ?_
    refine (ih.expression .lowest d).bind fun value _ => ?_
    exact (FollowsAt.expect (by decide)).bind fun _ _ => .pure _
  | returnWord =>
    refine .expect_bind (by simp [hk]) (by decide) ?_
    refine (ih.expression .lowest _).bind fun value _ => ?_
    exact (FollowsAt.expect (by decide)).bind fun _ _ => .pure _
  | _ =>
    refine (ih.expression .lowest c).bind fun value d => ?_
    exact .check_bind (by decide) (.pure _) (.pure _)

theorem statements_follows (ih : FollowsWith n) (closers : List Kind) :
    FollowsAt c (statements (n + 1) closers) (Parser.statements (n + 1) closers) := by
  refine .peeks_bind ?_
  split
  · exact .pure _
  · exact (ih.statement c).bind fun s d => (ih.statements closers d).bind fun _ _ => .pure _

theorem block_follows (ih : FollowsWith n) :
    FollowsAt c (block (n + 1)) (Parser.block (n + 1)) := by
  refine (FollowsAt.expect (by decide)).bind fun _ d => ?_
  refine (ih.statements _ d).bind fun body _ => ?_
  exact (FollowsAt.expect (by decide)).bind fun _ _ => .pure _

theorem expression_follows (ih : FollowsWith n) (level : Precedence) :
    FollowsAt c (expression (n + 1) level) (Parser.expression (n + 1) level) :=
  (ih.operand c).bind fun left d => ih.continuation level left d

theorem negation_follows (ih : FollowsWith n) (op : UnaryOp) (hk : c.peek.kind = op.token) :
    FollowsAt c (negation (expression n)) (Parser.advance >>= fun _ =>
      Parser.expression n .unary >>= fun e => pure (.unary op e)) := by
  have hop : (if c.peek.kind = .minus then UnaryOp.neg else .not) = op := by
    rw [hk]
    cases op <;> rfl
  refine .expect_bind (by rw [hk]; cases op <;> decide) (by decide) ?_
  rw [hop]
  exact (ih.expression .unary _).bind fun _ _ => .pure _

theorem group_follows (ih : FollowsWith n) (hk : c.peek.kind = .lparen) :
    FollowsAt c (group (expression n)) (Parser.advance >>= fun _ =>
      Parser.expression n .lowest >>= fun e => Parser.expect [.rparen] >>= fun _ => pure e) := by
  refine .expect_bind (by simp [hk]) (by decide) ?_
  refine (ih.expression .lowest _).bind fun inner _ => ?_
  exact (FollowsAt.expect (by decide)).bind fun _ _ => .pure _

theorem conditional_follows (ih : FollowsWith n) (hk : c.peek.kind = .ifWord) :
    FollowsAt c (conditional (expression n) (block n)) (Parser.advance >>= fun _ =>
      Parser.expect [.lparen] >>= fun _ => Parser.expression n .lowest >>= fun condition =>
      Parser.expect [.rparen] >>= fun _ => Parser.block n >>= fun consequence =>
      Parser.accept .elseWord >>= fun found => if found = true then
        Parser.block n >>= fun alternative =>
          pure (.cond condition consequence (some alternative))
      else pure (.cond condition consequence none)) := by
  refine .expect_bind (by simp [hk]) (by decide) ?_
  refine (FollowsAt.expect (by decide)).bind fun _ d => ?_
  refine (ih.expression .lowest d).bind fun condition _ => ?_
  refine (FollowsAt.expect (by decide)).bind fun _ d => ?_
  refine (ih.block d).bind fun consequence d => ?_
  exact .check_bind (by decide) ((ih.block _).bind fun _ _ => .pure _) (.pure _)

theorem function_follows (ih : FollowsWith n) (hk : c.peek.kind = .fnWord) :
    FollowsAt c (function (block n) (parameters n)) (Parser.advance >>= fun _ =>
      Parser.parameters n >>= fun params => Parser.block n >>= fun body =>
        pure (.fn params body)) := by
  refine .expect_bind (by simp [hk]) (by decide) ?_
  refine (parameters_follows n _).bind fun params d => ?_
  exact (ih.block d).bind fun _ _ => .pure _

theorem operand_follows (ih : FollowsWith n) :
    FollowsAt c (operand (n + 1)) (Parser.operand (n + 1)) := by
  refine .peeks_bind ?_
  generalize hk : c.peek.kind = k
  cases k with
  | ident => exact .expect_bind (by simp [hk]) (by decide) (.pure _)
  | int => exact .integer
  | string => exact .expect_bind (by simp [hk]) (by decide) (.pure _)
  | trueWord =>
    refine .expect_bind (by simp [hk]) (by decide) ?_
    rw [hk]
    exact .pure _
  | falseWord =>
    refine .expect_bind (by simp [hk]) (by decide) ?_
    rw [hk]
    exact .pure _
  | minus => exact negation_follows ih .neg hk
  | bang => exact negation_follows ih .not hk
  | lparen => exact group_follows ih hk
  | ifWord => exact conditional_follows ih hk
  | fnWord => exact function_follows ih hk
  | _ => exact .refuse _

theorem operation_follows (ih : FollowsWith n) {op : BinaryOp} (left : Expr)
    (hk : c.peek.kind = op.token) :
    FollowsAt c (operation (expression n) left) (Parser.advance >>= fun _ =>
      Parser.expression n (.ofKind op.token) >>= fun right => pure (.binary op left right)) := by
  refine .peek_bind (.expect_bind (by rw [hk]; cases op <;> decide) (by decide) ?_)
  have hop : (BinaryOp.ofKind? c.peek.kind).getD .notEq = op := by
    rw [hk]
    cases op <;> rfl
  rw [hop, hk]
  exact (ih.expression _ _).bind fun _ _ => .pure _

theorem application_follows (ih : FollowsWith n) (callee : Expr) (hk : c.peek.kind = .lparen) :
    FollowsAt c (application (arguments n) callee) (Parser.advance >>= fun _ =>
      Parser.arguments n >>= fun args => pure (.call callee args)) := by
  refine .expect_bind (by simp [hk]) (by decide) ?_
  exact (ih.arguments _).bind fun _ _ => .pure _

/-- A token that binds has a handler: it is an operator or opens a list of arguments. -/
theorem operator_or_lparen {level : Precedence} {k : Kind} (h : level < .ofKind k) :
    (∃ op : BinaryOp, k = op.token) ∨ k = .lparen := by
  cases hop : BinaryOp.ofKind? k with
  | some op => exact .inl ⟨op, BinaryOp.eq_token hop⟩
  | none =>
    right
    cases k <;> first | rfl | exact absurd h (Nat.not_lt_zero _) | cases hop

theorem ofKind_semicolon_not_lt (level : Precedence) : ¬ level < .ofKind .semicolon :=
  Nat.not_lt_zero _

theorem continuation_follows (ih : FollowsWith n) (level : Precedence) (left : Expr) :
    FollowsAt c (continuation (n + 1) level left) (Parser.continuation (n + 1) level left) := by
  refine .seen_bind (.peek_bind ?_)
  change FollowsAt c _ (if level < .ofKind c.peek.kind then _ else pure left)
  by_cases hlevel : level < .ofKind c.peek.kind
  · have hopen : c.peek.kind ≠ .semicolon := fun hk => ofKind_semicolon_not_lt level (hk ▸ hlevel)
    rw [if_pos ⟨by simpa using hopen, hlevel⟩, if_pos hlevel]
    -- Both go on from the new operand as they went on from the old one.
    rcases operator_or_lparen hlevel with ⟨op, hk⟩ | hk
    · have hhandler : continuing? (expression n) (arguments n) op.token =
          some (operation (expression n)) := by cases op <;> rfl
      have hgroup := (operation_follows ih left hk).bind fun e d => ih.continuation level e d
      simp only [bind_assoc, pure_bind] at hgroup
      rw [hk, hhandler, BinaryOp.ofKind?_token]
      exact hgroup
    · have hgroup := (application_follows ih left hk).bind fun e d => ih.continuation level e d
      simp only [bind_assoc, pure_bind] at hgroup
      rw [hk]
      exact hgroup
  · rw [if_neg fun h => hlevel h.2, if_neg hlevel]
    exact .pure _

theorem moreArguments_follows (ih : FollowsWith n) :
    FollowsAt c (moreArguments (n + 1)) (Parser.moreArguments (n + 1)) := by
  refine (ih.expression .lowest c).bind fun arg d => ?_
  refine (FollowsAt.expect (by decide)).bind fun separator d => ?_
  split
  · exact (ih.moreArguments d).bind fun _ _ => .pure _
  · exact .pure _

theorem arguments_follows (ih : FollowsWith n) :
    FollowsAt c (arguments (n + 1)) (Parser.arguments (n + 1)) :=
  .check_bind (by decide) (.pure _) (ih.moreArguments c)

end Step

theorem followsWith (n : Nat) : FollowsWith n := by
  induction n with
  | zero => constructor <;> intros <;> exact .outOfBudget
  | succ n ih =>
    exact ⟨fun _ => statement_follows ih, fun closers _ => statements_follows ih closers,
      fun _ => block_follows ih, fun level _ => expression_follows ih level,
      fun _ => operand_follows ih, fun level left _ => continuation_follows ih level left,
      fun _ => arguments_follows ih, fun _ => moreArguments_follows ih⟩

end Descent

end Monkey

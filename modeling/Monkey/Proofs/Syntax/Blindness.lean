import Monkey.Proofs.Syntax.Locality

/-! # Parsers are blind to places

A parser chooses by the kinds of tokens and builds with their literals; where a token
stood in the text shows in faults only. So parsing tokens whose places are forgotten is
parsing the tokens, and forgetting the place in the fault, if there is one.
-/

namespace Monkey

/-- A token without its place: it stands at the start like every other. -/
def Token.unplaced (t : Token) : Token := { t with position := .start }

/-- A fault without the place of the token that it is about. -/
def Fault.unplaced : Fault → Fault
  | unexpectedToken expected found index => .unexpectedToken expected found.unplaced index
  | noExpression found index => .noExpression found.unplaced index
  | noContinuation found index => .noContinuation found.unplaced index
  | e => e

namespace Token.Cursor

/-- A cursor over the tokens without their places. -/
def unplaced (c : Cursor) : Cursor where
  index := c.index
  pending := c.pending.map Token.unplaced
  stop := c.stop.unplaced
  pending_ne_eof t ht := by
    obtain ⟨u, hu, rfl⟩ := List.mem_map.1 ht
    exact c.pending_ne_eof u hu
  stop_eq_eof := c.stop_eq_eof

theorem peek_unplaced (c : Cursor) : c.unplaced.peek = c.peek.unplaced := by
  obtain ⟨index, pending, stop, -, -⟩ := c
  cases pending <;> rfl

theorem advance_unplaced (c : Cursor) : c.unplaced.advance = c.advance.unplaced := by
  obtain ⟨index, pending, stop, -, -⟩ := c
  cases pending <;> rfl

theorem left_unplaced (c : Cursor) : c.unplaced.left = c.left :=
  List.length_map Token.unplaced

theorem impliedEnd_unplaced (ts : List Token) :
    impliedEnd (ts.map Token.unplaced) = (impliedEnd ts).unplaced := by
  unfold impliedEnd
  rw [List.getLast?_map]
  cases ts.getLast? <;> rfl

theorem ofTokens_unplaced (ts : List Token) :
    ofTokens (ts.map Token.unplaced) = (ofTokens ts).unplaced := by
  have hkind : (fun t : Token => decide (t.kind ≠ .eof)) ∘ Token.unplaced =
      fun t => decide (t.kind ≠ .eof) := rfl
  have hpending : (ts.map Token.unplaced).takeWhile (·.kind ≠ .eof) =
      (ts.takeWhile (·.kind ≠ .eof)).map Token.unplaced := by
    rw [List.takeWhile_map, hkind]
  have hstop : firstEnd (ts.map Token.unplaced) = (firstEnd ts).unplaced := by
    unfold firstEnd
    rw [List.find?_map, impliedEnd_unplaced]
    change (Option.map Token.unplaced (ts.find? (·.kind = .eof))).getD _ = _
    cases ts.find? (·.kind = .eof) <;> rfl
  simp only [ofTokens, unplaced, hpending, hstop]

end Token.Cursor

namespace Parser

open Token

variable {α β : Type}

/-- An outcome of parsing without places. -/
def unplaced : Except Fault α × Cursor → Except Fault α × Cursor
  | (r, c) => (r.mapError Fault.unplaced, c.unplaced)

/-- Whether a parser does with tokens without places what it does with the tokens. -/
def Blind (p : Parser α) : Prop :=
  ∀ c, p.runAt c.unplaced = (p.runAt c).map unplaced

theorem integerAt_unplaced (t : Token) (i : Nat) :
    integerAt t.unplaced i = (integerAt t i).mapError Fault.unplaced := by
  have hliteral : t.unplaced.literal = t.literal := rfl
  by_cases hk : t.kind ∈ [Kind.int]
  · have hk' : t.unplaced.kind ∈ [Kind.int] := hk
    rw [integerAt, integerAt, if_pos hk, if_pos hk', hliteral]
    cases Integer.ofNumeral? t.literal <;> rfl
  · have hk' : t.unplaced.kind ∉ [Kind.int] := hk
    rw [integerAt, integerAt, if_neg hk, if_neg hk']
    rfl

namespace Blind

variable {p : Parser α} {f : α → Parser β}

theorem outOfBudget : Blind (outOfBudget : Parser α) := fun _ => rfl

theorem pure (a : α) : Blind (Pure.pure a : Parser α) := fun _ => rfl

theorem bind (hp : Blind p) (hf : ∀ a, Blind (f a)) : Blind (p >>= f) := by
  intro c
  rw [runAt_bind, runAt_bind, hp c]
  rcases p.runAt c with _ | ⟨_ | a, c'⟩
  · rfl
  · rfl
  · exact hf a c'

/-- What follows a look at the token must use no more of it than a token without place shows. -/
theorem peek_bind {f : Token → Parser β} (hf : ∀ t, Blind (f t))
    (hsame : ∀ t, f t.unplaced = f t) : Blind (peek >>= f) := by
  intro c
  rw [runAt_peek_bind, runAt_peek_bind, Cursor.peek_unplaced, hsame]
  exact hf c.peek c

theorem advance : Blind advance := by
  intro c
  have hrun (d : Cursor) : Parser.advance.runAt d = some (.ok (), d.advance) := rfl
  rw [hrun, hrun, Cursor.advance_unplaced]
  rfl

theorem refuse {fault : Token → Nat → Fault}
    (h : ∀ t i, fault t.unplaced i = (fault t i).unplaced) : Blind (refuse fault : Parser α) := by
  intro c
  have hrun (d : Cursor) : (Parser.refuse fault : Parser α).runAt d =
      some (.error (fault d.peek d.index), d) := rfl
  rw [hrun, hrun, Cursor.peek_unplaced, h]
  rfl

theorem expect_bind {kinds : List Kind} {f : Token → Parser β} (hf : ∀ t, Blind (f t))
    (hsame : ∀ t, f t.unplaced = f t) : Blind (expect kinds >>= f) := by
  intro c
  rw [runAt_bind, runAt_bind, runAt_expect, runAt_expect, Cursor.peek_unplaced]
  by_cases hk : c.peek.kind ∈ kinds
  · have hk' : c.peek.unplaced.kind ∈ kinds := hk
    rw [if_pos hk, if_pos hk, if_pos hk', if_pos hk', Option.bind_some, Option.bind_some,
      Cursor.advance_unplaced]
    simp only [hsame]
    exact hf c.peek c.advance
  · have hk' : c.peek.unplaced.kind ∉ kinds := hk
    rw [if_neg hk, if_neg hk, if_neg hk', if_neg hk']
    rfl

theorem accept (kind : Kind) : Blind (accept kind) := by
  refine peek_bind (fun t => ?_) fun _ => rfl
  split
  · exact advance.bind fun _ => .pure _
  · exact .pure _

theorem integer : Blind integer := by
  intro c
  rw [runAt_integer, runAt_integer, Cursor.peek_unplaced, Cursor.advance_unplaced]
  have hat := integerAt_unplaced c.peek c.index
  by_cases hk : c.peek.kind ∈ [Kind.int]
  · have hk' : c.peek.unplaced.kind ∈ [Kind.int] := hk
    rw [if_pos hk, if_pos hk']
    exact congrArg (fun r => some (r, c.advance.unplaced)) hat
  · have hk' : c.peek.unplaced.kind ∉ [Kind.int] := hk
    rw [if_neg hk, if_neg hk']
    exact congrArg (fun r => some (r, c.unplaced)) hat

end Blind

theorem moreParameters_blind (n : Nat) : Blind (moreParameters n) := by
  induction n with
  | zero => exact .outOfBudget
  | succ n ih =>
    apply Blind.expect_bind _ fun _ => rfl
    intro name
    apply Blind.expect_bind _ fun _ => rfl
    intro separator
    split
    · exact ih.bind fun _ => .pure _
    · exact .pure _

theorem parameters_blind (n : Nat) : Blind (parameters n) := by
  apply Blind.expect_bind _ fun _ => rfl
  intro _
  apply (Blind.accept _).bind
  intro found
  split
  · exact .pure _
  · exact moreParameters_blind n

/-- Each parser of the grammar is blind with the budget `n`. -/
structure BlindAt (n : Nat) : Prop where
  operand : Blind (operand n)
  continuation (level : Precedence) (left : Expr) : Blind (continuation n level left)
  block : Blind (block n)
  expression (level : Precedence) : Blind (expression n level)
  statement : Blind (statement n)
  moreArguments : Blind (moreArguments n)
  statements (closers : List Kind) : Blind (statements n closers)
  arguments : Blind (arguments n)

section Step

variable {n : Nat}

theorem statement_blind (ih : BlindAt n) : Blind (statement (n + 1)) := by
  apply Blind.peek_bind _ fun _ => rfl
  intro t
  split
  · apply Blind.advance.bind
    intro _
    apply Blind.expect_bind _ fun _ => rfl
    intro name
    apply Blind.expect_bind _ fun _ => rfl
    intro _
    apply (ih.expression _).bind
    intro value
    exact .expect_bind (fun _ => .pure _) fun _ => rfl
  · apply Blind.advance.bind
    intro _
    apply (ih.expression _).bind
    intro value
    exact .expect_bind (fun _ => .pure _) fun _ => rfl
  · exact (ih.expression _).bind fun value => (Blind.accept _).bind fun _ => .pure _

theorem statements_blind (ih : BlindAt n) (closers : List Kind) :
    Blind (statements (n + 1) closers) := by
  apply Blind.peek_bind _ fun _ => rfl
  intro t
  split
  · exact .pure _
  · exact ih.statement.bind fun s => (ih.statements closers).bind fun _ => .pure _

theorem block_blind (ih : BlindAt n) : Blind (block (n + 1)) := by
  apply Blind.expect_bind _ fun _ => rfl
  intro _
  apply (ih.statements _).bind
  intro body
  exact .expect_bind (fun _ => .pure _) fun _ => rfl

theorem expression_blind (ih : BlindAt n) (level : Precedence) :
    Blind (expression (n + 1) level) :=
  ih.operand.bind fun left => ih.continuation level left

theorem operand_blind (ih : BlindAt n) : Blind (operand (n + 1)) := by
  apply Blind.peek_bind _ fun _ => rfl
  intro t
  split
  · exact Blind.advance.bind fun _ => .pure _
  · exact .integer
  · exact Blind.advance.bind fun _ => .pure _
  · exact Blind.advance.bind fun _ => .pure _
  · exact Blind.advance.bind fun _ => .pure _
  · exact Blind.advance.bind fun _ => (ih.expression _).bind fun _ => .pure _
  · exact Blind.advance.bind fun _ => (ih.expression _).bind fun _ => .pure _
  · apply Blind.advance.bind
    intro _
    apply (ih.expression _).bind
    intro inner
    exact .expect_bind (fun _ => .pure _) fun _ => rfl
  · apply Blind.advance.bind
    intro _
    apply Blind.expect_bind _ fun _ => rfl
    intro _
    apply (ih.expression _).bind
    intro condition
    apply Blind.expect_bind _ fun _ => rfl
    intro _
    apply ih.block.bind
    intro consequence
    apply (Blind.accept _).bind
    intro found
    split
    · exact ih.block.bind fun _ => .pure _
    · exact .pure _
  · apply Blind.advance.bind
    intro _
    apply (parameters_blind n).bind
    intro params
    exact ih.block.bind fun _ => .pure _
  · exact .refuse fun _ _ => rfl

theorem continuation_blind (ih : BlindAt n) (level : Precedence) (left : Expr) :
    Blind (continuation (n + 1) level left) := by
  apply Blind.peek_bind _ fun _ => rfl
  intro t
  split
  · split
    · apply Blind.advance.bind
      intro _
      apply (ih.expression _).bind
      intro right
      exact ih.continuation _ _
    · apply Blind.advance.bind
      intro _
      apply ih.arguments.bind
      intro args
      exact ih.continuation _ _
    · exact .refuse fun _ _ => rfl
  · exact .pure _

theorem moreArguments_blind (ih : BlindAt n) : Blind (moreArguments (n + 1)) := by
  apply (ih.expression _).bind
  intro arg
  apply Blind.expect_bind _ fun _ => rfl
  intro separator
  split
  · exact ih.moreArguments.bind fun _ => .pure _
  · exact .pure _

theorem arguments_blind (ih : BlindAt n) : Blind (arguments (n + 1)) := by
  apply (Blind.accept _).bind
  intro found
  split
  · exact .pure _
  · exact ih.moreArguments

end Step

theorem blindAt (n : Nat) : BlindAt n := by
  induction n with
  | zero => constructor <;> intros <;> exact .outOfBudget
  | succ n ih =>
    exact ⟨operand_blind ih, continuation_blind ih, block_blind ih, expression_blind ih,
      statement_blind ih, moreArguments_blind ih, statements_blind ih, arguments_blind ih⟩

theorem parse_unplaced (c : Cursor) : parse c.unplaced = unplaced (parse c) := by
  have hbudget : budgetAt c.unplaced = budgetAt c := by
    rw [budgetAt, budgetAt, Cursor.left_unplaced]
  have hblind : (program (budgetAt c)).runAt c.unplaced =
      ((program (budgetAt c)).runAt c).map unplaced :=
    (blindAt (budgetAt c)).statements [.eof] c
  rw [runAt_program, ← hbudget, runAt_program] at hblind
  exact Option.some.inj hblind

end Parser

/-- Without the places of its tokens a program is the same, and so is a fault but for its place. -/
theorem Program.ofTokens_unplaced (ts : List Token) :
    ofTokens (ts.map Token.unplaced) = (ofTokens ts).mapError Fault.unplaced := by
  rw [ofTokens, Token.Cursor.ofTokens_unplaced, Parser.parse_unplaced]
  rfl

end Monkey

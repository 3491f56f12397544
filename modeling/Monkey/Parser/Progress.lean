import Monkey.Parser.Grammar

/-! # Parsing makes progress and ends

Every parser that needs a token consumes one when it succeeds, and none goes
back. So a budget linear in the number of tokens left never runs out:
`program_ends` and `expression_ends` give it for whole programs and for
expressions.
-/

namespace Monkey.Parser

open Token

variable {α β : Type}

/-- From `c` the parser ends, never goes back, and consumes `least` tokens when it succeeds. -/
def Ends (p : Parser α) (c : Cursor) (least : Nat) : Prop :=
  ∃ r c', p.runAt c = some (r, c') ∧ c'.left ≤ c.left ∧
    ∀ a, r = .ok a → c'.left + least ≤ c.left

theorem runAt_bind (p : Parser α) (f : α → Parser β) (c : Cursor) :
    (p >>= f).runAt c = (p.runAt c).bind fun
      | (.ok a, c') => (f a).runAt c'
      | (.error e, c') => some (.error e, c') := by
  simp only [runAt, ExceptT.run_bind, StateT.run_bind, Option.bind_eq_bind]
  congr 1
  funext ⟨r, c'⟩
  cases r <;> rfl

theorem runAt_peek_bind (f : Token → Parser β) (c : Cursor) :
    (peek >>= f).runAt c = (f c.peek).runAt c := rfl

theorem Ends.weaken {p : Parser α} {c : Cursor} {m k : Nat} (h : Ends p c m) (hk : k ≤ m) :
    Ends p c k := by
  obtain ⟨r, c', hr, hle, hok⟩ := h
  exact ⟨r, c', hr, hle, fun a ha => by have := hok a ha; omega⟩

theorem Ends.pure (a : α) (c : Cursor) : Ends (Pure.pure a : Parser α) c 0 :=
  ⟨.ok a, c, rfl, Nat.le_refl _, fun _ _ => Nat.le_refl _⟩

theorem Ends.bind {p : Parser α} {f : α → Parser β} {c : Cursor} {m k : Nat} (hp : Ends p c m)
    (hf : ∀ a c', c'.left + m ≤ c.left → Ends (f a) c' k) : Ends (p >>= f) c (m + k) := by
  obtain ⟨r, c', hr, hle, hok⟩ := hp
  cases r with
  | error e =>
    exact ⟨.error e, c', by rw [runAt_bind, hr]; rfl, hle, fun a ha => by cases ha⟩
  | ok a =>
    obtain ⟨r', c'', hr', hle', hok'⟩ := hf a c' (hok a rfl)
    refine ⟨r', c'', by rw [runAt_bind, hr]; exact hr', by omega, fun b hb => ?_⟩
    have := hok a rfl
    have := hok' b hb
    omega

theorem Ends.peek_bind {f : Token → Parser β} {c : Cursor} {m : Nat} (h : Ends (f c.peek) c m) :
    Ends (peek >>= f) c m := h

theorem Ends.get_bind {f : Cursor → Parser β} {c : Cursor} {m : Nat} (h : Ends (f c) c m) :
    Ends (get >>= f) c m := h

theorem Ends.refuse (fault : Token → Nat → Fault) (c : Cursor) (m : Nat) :
    Ends (refuse fault : Parser α) c m :=
  ⟨.error (fault c.peek c.index), c, rfl, Nat.le_refl _, fun _ h => by cases h⟩

theorem Ends.throw (fault : Fault) (c : Cursor) (m : Nat) :
    Ends (throw fault : Parser α) c m :=
  ⟨.error fault, c, rfl, Nat.le_refl _, fun _ h => by cases h⟩

theorem Ends.advance {c : Cursor} (h : c.peek.kind ≠ .eof) : Ends advance c 1 := by
  have := Cursor.left_pos_iff.2 h
  have := c.left_advance
  exact ⟨.ok (), c.advance, rfl, by omega, fun _ _ => by omega⟩

theorem Ends.expect {kinds : List Kind} (h : Kind.eof ∉ kinds) (c : Cursor) :
    Ends (expect kinds) c 1 := by
  refine .peek_bind ?_
  split
  · next hk => exact (advance fun he => h (he ▸ hk)).bind fun _ _ _ => .pure _ _
  · exact .refuse _ _ _

theorem Ends.accept {kind : Kind} (h : kind ≠ .eof) (c : Cursor) : Ends (accept kind) c 0 := by
  refine .peek_bind ?_
  split
  · next hk =>
    exact ((advance fun he => h (hk ▸ he)).bind fun _ _ _ => .pure _ _).weaken (by omega)
  · exact .pure _ _

theorem integer_ends (c : Cursor) : Ends integer c 1 := by
  refine .get_bind ((Ends.expect (by decide) c).bind (k := 0) fun t c' _ => ?_)
  split
  · exact .pure _ _
  · exact .throw _ _ _

theorem moreParameters_ends (n : Nat) (c : Cursor) (h : c.left + 1 ≤ n) :
    Ends (moreParameters n) c 1 := by
  induction n generalizing c with
  | zero => omega
  | succ n ih =>
    refine ((Ends.expect (by decide) c).bind (k := 0) fun name c₁ _ => ?_)
    refine Ends.weaken ((Ends.expect (by decide) c₁).bind (k := 0) fun sep c₂ _ => ?_) (by omega)
    split
    · exact ((ih c₂ (by omega)).bind fun _ _ _ => .pure _ _).weaken (by omega)
    · exact .pure _ _

theorem parameters_ends (n : Nat) (c : Cursor) (h : c.left ≤ n) : Ends (parameters n) c 1 := by
  refine (Ends.expect (by decide) c).bind (k := 0) fun _ c₁ _ => ?_
  refine (Ends.accept (by decide) c₁).bind (k := 0) fun found c₂ _ => ?_
  split
  · exact .pure _ _
  · exact (moreParameters_ends n c₂ (by omega)).weaken (by omega)

/-- What each parser of the grammar needs of its budget, and what it then guarantees. -/
structure BudgetSuffices (n : Nat) : Prop where
  operand (c : Cursor) : 4 * c.left + 1 ≤ n → Ends (operand n) c 1
  continuation (level : Precedence) (left : Expr) (c : Cursor) :
    4 * c.left + 1 ≤ n → Ends (continuation n level left) c 0
  block (c : Cursor) : 4 * c.left + 1 ≤ n → Ends (block n) c 1
  expression (level : Precedence) (c : Cursor) :
    4 * c.left + 2 ≤ n → Ends (expression n level) c 1
  statement (c : Cursor) : 4 * c.left + 3 ≤ n → Ends (statement n) c 1
  moreArguments (c : Cursor) : 4 * c.left + 3 ≤ n → Ends (moreArguments n) c 1
  statements (closers : List Kind) (c : Cursor) :
    .eof ∈ closers → 4 * c.left + 4 ≤ n → Ends (statements n closers) c 0
  arguments (c : Cursor) : 4 * c.left + 4 ≤ n → Ends (arguments n) c 0

theorem statement_ends {n : Nat} (ih : BudgetSuffices n) (c : Cursor)
    (h : 4 * c.left + 3 ≤ n + 1) : Ends (statement (n + 1)) c 1 := by
  refine .peek_bind ?_
  split
  · next hk =>
    refine (Ends.advance (by simp [hk])).bind (k := 0) fun _ c₁ _ => ?_
    refine ((Ends.expect (by decide) c₁).bind (k := 0) fun name c₂ _ => ?_).weaken (by omega)
    refine ((Ends.expect (by decide) c₂).bind (k := 0) fun _ c₃ _ => ?_).weaken (by omega)
    refine ((ih.expression _ c₃ (by omega)).bind (k := 0) fun _ c₄ _ => ?_).weaken (by omega)
    exact ((Ends.expect (by decide) c₄).bind fun _ _ _ => .pure _ _).weaken (by omega)
  · next hk =>
    refine (Ends.advance (by simp [hk])).bind (k := 0) fun _ c₁ _ => ?_
    refine ((ih.expression _ c₁ (by omega)).bind (k := 0) fun _ c₂ _ => ?_).weaken (by omega)
    exact ((Ends.expect (by decide) c₂).bind fun _ _ _ => .pure _ _).weaken (by omega)
  · refine (ih.expression _ c (by omega)).bind (k := 0) fun _ c₁ _ => ?_
    exact (Ends.accept (by decide) c₁).bind fun _ _ _ => .pure _ _

theorem statements_ends {n : Nat} (ih : BudgetSuffices n) (closers : List Kind) (c : Cursor)
    (hc : .eof ∈ closers) (h : 4 * c.left + 4 ≤ n + 1) :
    Ends (statements (n + 1) closers) c 0 := by
  refine .peek_bind ?_
  split
  · exact .pure _ _
  · refine ((ih.statement c (by omega)).bind (k := 0) fun _ c₁ _ => ?_).weaken (by omega)
    exact (ih.statements closers c₁ hc (by omega)).bind fun _ _ _ => .pure _ _

theorem block_ends {n : Nat} (ih : BudgetSuffices n) (c : Cursor)
    (h : 4 * c.left + 1 ≤ n + 1) : Ends (block (n + 1)) c 1 := by
  refine (Ends.expect (by decide) c).bind (k := 0) fun _ c₁ _ => ?_
  refine (ih.statements _ c₁ (by decide) (by omega)).bind (k := 0) fun _ c₂ _ => ?_
  exact ((Ends.expect (by decide) c₂).bind fun _ _ _ => .pure _ _).weaken (by omega)

theorem expression_ends_succ {n : Nat} (ih : BudgetSuffices n) (level : Precedence) (c : Cursor)
    (h : 4 * c.left + 2 ≤ n + 1) : Ends (expression (n + 1) level) c 1 :=
  (ih.operand c (by omega)).bind fun _ c₁ _ => ih.continuation level _ c₁ (by omega)

theorem operand_ends {n : Nat} (ih : BudgetSuffices n) (c : Cursor)
    (h : 4 * c.left + 1 ≤ n + 1) : Ends (operand (n + 1)) c 1 := by
  refine .peek_bind ?_
  split
  · next hk => exact (Ends.advance (by simp [hk])).bind fun _ _ _ => .pure _ _
  · exact integer_ends c
  · next hk => exact (Ends.advance (by simp [hk])).bind fun _ _ _ => .pure _ _
  · next hk => exact (Ends.advance (by simp [hk])).bind fun _ _ _ => .pure _ _
  · next hk => exact (Ends.advance (by simp [hk])).bind fun _ _ _ => .pure _ _
  · next hk =>
    refine (Ends.advance (by simp [hk])).bind (k := 0) fun _ c₁ _ => ?_
    exact ((ih.expression _ c₁ (by omega)).bind fun _ _ _ => .pure _ _).weaken (by omega)
  · next hk =>
    refine (Ends.advance (by simp [hk])).bind (k := 0) fun _ c₁ _ => ?_
    exact ((ih.expression _ c₁ (by omega)).bind fun _ _ _ => .pure _ _).weaken (by omega)
  · next hk =>
    refine (Ends.advance (by simp [hk])).bind (k := 0) fun _ c₁ _ => ?_
    refine ((ih.expression _ c₁ (by omega)).bind (k := 0) fun _ c₂ _ => ?_).weaken (by omega)
    exact ((Ends.expect (by decide) c₂).bind fun _ _ _ => .pure _ _).weaken (by omega)
  · next hk =>
    refine (Ends.advance (by simp [hk])).bind (k := 0) fun _ c₁ _ => ?_
    refine ((Ends.expect (by decide) c₁).bind (k := 0) fun _ c₂ _ => ?_).weaken (by omega)
    refine ((ih.expression _ c₂ (by omega)).bind (k := 0) fun _ c₃ _ => ?_).weaken (by omega)
    refine ((Ends.expect (by decide) c₃).bind (k := 0) fun _ c₄ _ => ?_).weaken (by omega)
    refine ((ih.block c₄ (by omega)).bind (k := 0) fun _ c₅ _ => ?_).weaken (by omega)
    refine (Ends.accept (by decide) c₅).bind (k := 0) fun found c₆ _ => ?_
    split
    · exact ((ih.block c₆ (by omega)).bind fun _ _ _ => .pure _ _).weaken (by omega)
    · exact .pure _ _
  · next hk =>
    refine (Ends.advance (by simp [hk])).bind (k := 0) fun _ c₁ _ => ?_
    refine ((parameters_ends n c₁ (by omega)).bind (k := 0) fun _ c₂ _ => ?_).weaken (by omega)
    exact ((ih.block c₂ (by omega)).bind fun _ _ _ => .pure _ _).weaken (by omega)
  · exact .refuse _ _ _

theorem ne_eof_of_lowest_lt {level : Precedence} {k : Kind}
    (h : level < Precedence.ofKind k) : k ≠ .eof := by
  rintro rfl
  exact absurd h (Nat.not_lt_zero _)

theorem continuation_ends {n : Nat} (ih : BudgetSuffices n) (level : Precedence) (left : Expr)
    (c : Cursor) (h : 4 * c.left + 1 ≤ n + 1) : Ends (continuation (n + 1) level left) c 0 := by
  refine .peek_bind ?_
  split
  · next hk =>
    have hstep := Ends.advance (ne_eof_of_lowest_lt hk)
    split
    · refine (hstep.bind (k := 0) fun _ c₁ _ => ?_).weaken (by omega)
      refine ((ih.expression _ c₁ (by omega)).bind (k := 0) fun _ c₂ _ => ?_).weaken (by omega)
      exact ih.continuation _ _ c₂ (by omega)
    · refine (hstep.bind (k := 0) fun _ c₁ _ => ?_).weaken (by omega)
      refine (ih.arguments c₁ (by omega)).bind (k := 0) fun _ c₂ _ => ?_
      exact ih.continuation _ _ c₂ (by omega)
    · exact .refuse _ _ _
  · exact .pure _ _

theorem moreArguments_ends {n : Nat} (ih : BudgetSuffices n) (c : Cursor)
    (h : 4 * c.left + 3 ≤ n + 1) : Ends (moreArguments (n + 1)) c 1 := by
  refine (ih.expression _ c (by omega)).bind (k := 0) fun _ c₁ _ => ?_
  refine ((Ends.expect (by decide) c₁).bind (k := 0) fun sep c₂ _ => ?_).weaken (by omega)
  split
  · exact ((ih.moreArguments c₂ (by omega)).bind fun _ _ _ => .pure _ _).weaken (by omega)
  · exact .pure _ _

theorem arguments_ends {n : Nat} (ih : BudgetSuffices n) (c : Cursor)
    (h : 4 * c.left + 4 ≤ n + 1) : Ends (arguments (n + 1)) c 0 := by
  refine (Ends.accept (by decide) c).bind (k := 0) fun found c₁ _ => ?_
  split
  · exact .pure _ _
  · exact (ih.moreArguments c₁ (by omega)).weaken (by omega)

/-- A budget of four for each token left, and a constant, suffices for every parser. -/
theorem budgetSuffices (n : Nat) : BudgetSuffices n := by
  induction n with
  | zero => constructor <;> intros <;> omega
  | succ n ih =>
    exact ⟨operand_ends ih, continuation_ends ih, block_ends ih, expression_ends_succ ih,
      statement_ends ih, moreArguments_ends ih, statements_ends ih, arguments_ends ih⟩

/-- The budget that suffices for any parser at a cursor. -/
def budgetAt (c : Cursor) : Nat :=
  4 * c.left + 4

theorem program_ends (c : Cursor) : Ends (program (budgetAt c)) c 0 :=
  (budgetSuffices _).statements _ c (by decide) (Nat.le_refl _)

theorem expression_ends (level : Precedence) (c : Cursor) :
    Ends (expression (budgetAt c) level) c 1 :=
  (budgetSuffices _).expression level c (by unfold budgetAt; omega)

theorem Ends.isSome {p : Parser α} {c : Cursor} {m : Nat} (h : Ends p c m) :
    (p.runAt c).isSome = true := by
  obtain ⟨r, c', hr, -⟩ := h
  simp [hr]

end Monkey.Parser

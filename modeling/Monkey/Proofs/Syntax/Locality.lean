import Monkey.Parser.Entry

/-! # Parsers read no further than what they report

The outcome of a parser depends on the tokens up to where it stopped, or up to
the token that its fault is about, and on no later ones. More budget changes no
outcome either, so a program parses in one way only.
-/

namespace Monkey

/-- The index of the token that a parsing fault is about. -/
def Fault.index? : Fault → Option Nat
  | unexpectedToken _ _ i | noExpression _ i | noContinuation _ i | invalidInteger _ i => some i
  | _ => none

theorem Fault.stage_of_index? {e : Fault} {i : Nat} (h : e.index? = some i) :
    e.stage = .parsing := by
  cases e <;> first | rfl | cases h

namespace Token.Cursor

variable {c d : Cursor} {n : Nat}

/-- The token some places further on, which is the end of text past the last one. -/
def ahead (c : Cursor) (k : Nat) : Token :=
  c.pending.getD k c.stop

/-- Two cursors at the same index with the same tokens up to the index `n`. -/
structure AgreeTo (n : Nat) (c d : Cursor) : Prop where
  index : d.index = c.index
  ahead (k : Nat) : c.index + k ≤ n → d.ahead k = c.ahead k

theorem ahead_zero (c : Cursor) : c.ahead 0 = c.peek := by
  cases h : c.pending <;> simp [ahead, peek, h]

theorem ahead_advance (c : Cursor) (k : Nat) : c.advance.ahead k = c.ahead (k + 1) := by
  cases h : c.pending <;> simp [ahead, Cursor.advance, h]

theorem index_advance (c : Cursor) :
    c.advance.index = if c.peek.kind = .eof then c.index else c.index + 1 := by
  cases h : c.pending with
  | nil => simp [Cursor.advance, peek, h, c.stop_eq_eof]
  | cons t ts => simp [Cursor.advance, peek, h, c.pending_ne_eof t (by simp [h])]

namespace AgreeTo

theorem refl (n : Nat) (c : Cursor) : AgreeTo n c c := ⟨rfl, fun _ _ => rfl⟩

theorem peek_eq (h : AgreeTo n c d) (hn : c.index ≤ n) : d.peek = c.peek := by
  rw [← ahead_zero, ← ahead_zero]
  exact h.ahead 0 hn

theorem advance (h : AgreeTo n c d) (hn : c.index ≤ n) : AgreeTo n c.advance d.advance := by
  have hpeek := h.peek_eq hn
  constructor
  · rw [index_advance, index_advance, hpeek, h.index]
  · intro k hk
    rw [ahead_advance, ahead_advance]
    by_cases heof : c.peek.kind = .eof
    · -- On the end of text, every token ahead is the end.
      have hall (b : Cursor) (hb : b.peek.kind = .eof) (j : Nat) : b.ahead j = b.peek := by
        have hlen : b.left = 0 := by
          have := mt left_pos_iff.1 (not_not_intro hb)
          omega
        have hnil : b.pending = [] := List.length_eq_zero_iff.1 hlen
        simp [Cursor.ahead, peek, hnil]
      rw [hall c heof, hall d (by rw [hpeek]; exact heof), hpeek]
    · rw [index_advance, if_neg heof] at hk
      exact h.ahead (k + 1) (by omega)

end AgreeTo

end Token.Cursor

namespace Parser

open Token

variable {α β : Type}

theorem runAt_expect (kinds : List Kind) (c : Cursor) :
    (expect kinds).runAt c =
      some (if c.peek.kind ∈ kinds then .ok c.peek
        else .error (.unexpectedToken kinds c.peek c.index),
        if c.peek.kind ∈ kinds then c.advance else c) := by
  rw [expect, runAt_peek_bind]
  split <;> rfl

theorem runAt_accept (kind : Kind) (c : Cursor) :
    (accept kind).runAt c =
      some (.ok (decide (c.peek.kind = kind)), if c.peek.kind = kind then c.advance else c) := by
  rw [accept, runAt_peek_bind]
  split
  · next h => simp only [h, decide_true]; rfl
  · next h => simp only [h, decide_false]; rfl

/-- What an integer literal gives at this token. -/
def integerAt (t : Token) (index : Nat) : Except Fault Expr :=
  if t.kind ∈ [Kind.int] then
    match Integer.ofNumeral? t.literal with
    | some n => .ok (.int n)
    | none => .error (.invalidInteger t.literal index)
  else
    .error (.unexpectedToken [.int] t index)

theorem runAt_integer (c : Cursor) :
    integer.runAt c =
      some (integerAt c.peek c.index,
        if c.peek.kind ∈ [Kind.int] then c.advance else c) := by
  change (expect [.int] >>= _).runAt c = _
  rw [runAt_bind, runAt_expect, integerAt]
  split
  · simp only [Option.bind_some]
    cases Integer.ofNumeral? c.peek.literal <;> rfl
  · rfl

/-- The index of the last token that an outcome depends on. -/
def horizon : Except Fault α → Cursor → Nat
  | .ok _, c => c.index
  | .error e, c => e.index?.getD c.index

/--
An outcome of `p` is also one of `q`, from every cursor that agrees with the first one up to the
horizon of that outcome.
-/
def Steady (p q : Parser α) : Prop :=
  ∀ c r c', p.runAt c = some (r, c') → c.index ≤ horizon r c' ∧
    ∀ n d, horizon r c' ≤ n → c.AgreeTo n d → ∃ d', q.runAt d = some (r, d') ∧ c'.AgreeTo n d'

namespace Steady

variable {p q : Parser α} {f g : α → Parser β}

theorem outOfBudget (q : Parser α) : Steady outOfBudget q := by
  rintro c r c' hr
  cases hr

/-- A parser that looks at the current token only, and faults only there. -/
theorem of_current (outcome : Token → Nat → Except Fault α) (moves : Token → Bool)
    (hrun : ∀ c, p.runAt c =
      some (outcome c.peek c.index, if moves c.peek then c.advance else c))
    (hfault : ∀ t i e, outcome t i = .error e → e.index? = some i) : Steady p p := by
  rintro c r c' hr
  rw [hrun] at hr
  cases hr
  have hle :
      c.index ≤ horizon (outcome c.peek c.index) (if moves c.peek then c.advance else c) := by
    cases hout : outcome c.peek c.index with
    | ok a =>
      simp only [horizon]
      split
      · rw [Cursor.index_advance]
        split <;> omega
      · exact Nat.le_refl _
    | error e => simp [horizon, hfault _ _ _ hout]
  refine ⟨hle, fun n d hn had => ?_⟩
  have hpeek := had.peek_eq (Nat.le_trans hle hn)
  refine ⟨if moves c.peek then d.advance else d, by rw [hrun, hpeek, had.index], ?_⟩
  split
  · exact had.advance (Nat.le_trans hle hn)
  · exact had

theorem pure (a : α) : Steady (Pure.pure a : Parser α) (Pure.pure a) :=
  of_current (fun _ _ => .ok a) (fun _ => false) (fun _ => rfl) (by simp)

theorem peek : Steady peek peek :=
  of_current (fun t _ => .ok t) (fun _ => false) (fun _ => rfl) (by simp)

theorem advance : Steady advance advance :=
  of_current (fun _ _ => .ok ()) (fun _ => true) (fun _ => rfl) (by simp)

theorem refuse {fault : Token → Nat → Fault} (h : ∀ t i, (fault t i).index? = some i) :
    Steady (refuse fault : Parser α) (refuse fault) :=
  of_current (fun t i => .error (fault t i)) (fun _ => false) (fun _ => rfl)
    (by rintro t i e ⟨⟩; exact h t i)

theorem expect (kinds : List Kind) : Steady (expect kinds) (expect kinds) := by
  refine of_current
    (fun t i => if t.kind ∈ kinds then .ok t else .error (.unexpectedToken kinds t i))
    (fun t => t.kind ∈ kinds) (fun c => by simp only [runAt_expect, decide_eq_true_eq]) ?_
  rintro t i e he
  split at he <;> cases he
  rfl

theorem accept (kind : Kind) : Steady (accept kind) (accept kind) :=
  of_current (fun t _ => .ok (decide (t.kind = kind))) (fun t => t.kind = kind)
    (fun c => by simp only [runAt_accept, decide_eq_true_eq]) (by simp)

theorem integer : Steady integer integer := by
  refine of_current integerAt (fun t => t.kind ∈ [Kind.int])
    (fun c => by simp only [runAt_integer, decide_eq_true_eq]) ?_
  rintro t i e he
  rw [integerAt] at he
  split at he
  · split at he <;> cases he
    rfl
  · cases he
    rfl

theorem bind (hp : Steady p q) (hf : ∀ a, Steady (f a) (g a)) : Steady (p >>= f) (q >>= g) := by
  rintro c r c' hr
  rw [runAt_bind] at hr
  obtain ⟨⟨r₁, c₁⟩, h₁, hr⟩ := Option.bind_eq_some_iff.1 hr
  obtain ⟨hle, hagree⟩ := hp c r₁ c₁ h₁
  cases r₁ with
  | error e =>
    cases hr
    refine ⟨hle, fun n d hn hd => ?_⟩
    obtain ⟨d', hq, hd'⟩ := hagree n d hn hd
    exact ⟨d', by rw [runAt_bind, hq]; rfl, hd'⟩
  | ok a =>
    have hmid : c.index ≤ c₁.index := hle
    obtain ⟨hle', hagree'⟩ := hf a c₁ r c' hr
    refine ⟨Nat.le_trans hmid hle', fun n d hn hd => ?_⟩
    obtain ⟨d₁, hq, hd₁⟩ := hagree n d (Nat.le_trans hle' hn) hd
    obtain ⟨d', hg, hd'⟩ := hagree' n d₁ hn hd₁
    exact ⟨d', by rw [runAt_bind, hq]; exact hg, hd'⟩

end Steady

theorem parameters_steady {n m : Nat} (h : n ≤ m) : Steady (parameters n) (parameters m) := by
  have hmore : ∀ n m, n ≤ m → Steady (moreParameters n) (moreParameters m) := by
    intro n
    induction n with
    | zero => exact fun _ _ => .outOfBudget _
    | succ n ih =>
      rintro (_ | m) h
      · omega
      · apply (Steady.expect _).bind
        intro name
        apply (Steady.expect _).bind
        intro separator
        split
        · exact (ih m (by omega)).bind fun _ => .pure _
        · exact .pure _
  apply (Steady.expect _).bind
  intro _
  apply (Steady.accept _).bind
  intro found
  split
  · exact .pure _
  · exact hmore n m h

/-- Each parser of the grammar with budget `n` is steady towards itself with budget `m`. -/
structure SteadyAt (n m : Nat) : Prop where
  operand : Steady (operand n) (operand m)
  continuation (level : Precedence) (left : Expr) :
    Steady (continuation n level left) (continuation m level left)
  block : Steady (block n) (block m)
  expression (level : Precedence) : Steady (expression n level) (expression m level)
  statement : Steady (statement n) (statement m)
  moreArguments : Steady (moreArguments n) (moreArguments m)
  statements (closers : List Kind) : Steady (statements n closers) (statements m closers)
  arguments : Steady (arguments n) (arguments m)

section Step

variable {n m : Nat}

theorem statement_steady (ih : SteadyAt n m) : Steady (statement (n + 1)) (statement (m + 1)) := by
  apply Steady.peek.bind
  intro t
  split
  · apply Steady.advance.bind
    intro _
    apply (Steady.expect _).bind
    intro name
    apply (Steady.expect _).bind
    intro _
    apply (ih.expression _).bind
    intro value
    exact (Steady.expect _).bind fun _ => .pure _
  · apply Steady.advance.bind
    intro _
    apply (ih.expression _).bind
    intro value
    exact (Steady.expect _).bind fun _ => .pure _
  · exact (ih.expression _).bind fun value => (Steady.accept _).bind fun _ => .pure _

theorem statements_steady (ih : SteadyAt n m) (closers : List Kind) :
    Steady (statements (n + 1) closers) (statements (m + 1) closers) := by
  apply Steady.peek.bind
  intro t
  split
  · exact .pure _
  · exact ih.statement.bind fun s => (ih.statements closers).bind fun _ => .pure _

theorem block_steady (ih : SteadyAt n m) : Steady (block (n + 1)) (block (m + 1)) := by
  apply (Steady.expect _).bind
  intro _
  apply (ih.statements _).bind
  intro body
  exact (Steady.expect _).bind fun _ => .pure _

theorem expression_steady (ih : SteadyAt n m) (level : Precedence) :
    Steady (expression (n + 1) level) (expression (m + 1) level) :=
  ih.operand.bind fun left => ih.continuation level left

theorem operand_steady (hnm : n ≤ m) (ih : SteadyAt n m) :
    Steady (operand (n + 1)) (operand (m + 1)) := by
  apply Steady.peek.bind
  intro t
  split
  · exact Steady.advance.bind fun _ => .pure _
  · exact .integer
  · exact Steady.advance.bind fun _ => .pure _
  · exact Steady.advance.bind fun _ => .pure _
  · exact Steady.advance.bind fun _ => .pure _
  · exact Steady.advance.bind fun _ => (ih.expression _).bind fun _ => .pure _
  · exact Steady.advance.bind fun _ => (ih.expression _).bind fun _ => .pure _
  · apply Steady.advance.bind
    intro _
    apply (ih.expression _).bind
    intro inner
    exact (Steady.expect _).bind fun _ => .pure _
  · apply Steady.advance.bind
    intro _
    apply (Steady.expect _).bind
    intro _
    apply (ih.expression _).bind
    intro condition
    apply (Steady.expect _).bind
    intro _
    apply ih.block.bind
    intro consequence
    apply (Steady.accept _).bind
    intro found
    split
    · exact ih.block.bind fun _ => .pure _
    · exact .pure _
  · apply Steady.advance.bind
    intro _
    apply (parameters_steady hnm).bind
    intro params
    exact ih.block.bind fun _ => .pure _
  · exact .refuse fun _ _ => rfl

theorem continuation_steady (ih : SteadyAt n m) (level : Precedence) (left : Expr) :
    Steady (continuation (n + 1) level left) (continuation (m + 1) level left) := by
  apply Steady.peek.bind
  intro t
  split
  · split
    · apply Steady.advance.bind
      intro _
      apply (ih.expression _).bind
      intro right
      exact ih.continuation _ _
    · apply Steady.advance.bind
      intro _
      apply ih.arguments.bind
      intro args
      exact ih.continuation _ _
    · exact .refuse fun _ _ => rfl
  · exact .pure _

theorem moreArguments_steady (ih : SteadyAt n m) :
    Steady (moreArguments (n + 1)) (moreArguments (m + 1)) := by
  apply (ih.expression _).bind
  intro arg
  apply (Steady.expect _).bind
  intro separator
  split
  · exact ih.moreArguments.bind fun _ => .pure _
  · exact .pure _

theorem arguments_steady (ih : SteadyAt n m) : Steady (arguments (n + 1)) (arguments (m + 1)) := by
  apply (Steady.accept _).bind
  intro found
  split
  · exact .pure _
  · exact ih.moreArguments

end Step

theorem steadyAt {n m : Nat} (h : n ≤ m) : SteadyAt n m := by
  induction n generalizing m with
  | zero => constructor <;> intros <;> exact .outOfBudget _
  | succ n ih =>
    obtain ⟨m, rfl⟩ : ∃ k, m = k + 1 := ⟨m - 1, by omega⟩
    have ih := ih (Nat.le_of_succ_le_succ h)
    exact ⟨operand_steady (by omega) ih, continuation_steady ih, block_steady ih,
      expression_steady ih, statement_steady ih, moreArguments_steady ih, statements_steady ih,
      arguments_steady ih⟩

theorem runAt_program (c : Cursor) : (program (budgetAt c)).runAt c = some (parse c) := by
  rw [parse, Option.some_get]

/-- A run of the parser settles the parse of every text that agrees up to its horizon. -/
theorem parse_eq_of_agreeTo {n : Nat} {c c' d : Cursor} {r : Except Fault Program}
    (hr : (program n).runAt c = some (r, c')) (hd : c.AgreeTo (horizon r c') d) :
    (parse d).1 = r := by
  have hn : n ≤ max n (budgetAt d) := Nat.le_max_left _ _
  have hm : budgetAt d ≤ max n (budgetAt d) := Nat.le_max_right _ _
  obtain ⟨-, hagree⟩ := (steadyAt hn).statements [.eof] c r c' hr
  obtain ⟨d', hd', -⟩ := hagree _ d (Nat.le_refl _) hd
  obtain ⟨-, hself⟩ := (steadyAt hm).statements [.eof] d _ _ (runAt_program d)
  obtain ⟨d'', hd'', -⟩ := hself _ d (Nat.le_refl _) (.refl _ d)
  rw [hd'] at hd''
  cases hd''
  rfl

theorem parse_eq_of_runAt {n : Nat} {c c' : Cursor} {r : Except Fault Program}
    (hr : (program n).runAt c = some (r, c')) : (parse c).1 = r :=
  parse_eq_of_agreeTo hr (.refl _ c)

end Parser

end Monkey

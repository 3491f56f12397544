import Monkey.Proofs.Syntax.Indexing

/-! # Requests stay before the end of text

However many requests a parser has served, and however they ended, its index is at most
that of the first end of text, and the tokens after that one have no part in any answer.
A program is read up to the end of text, and from there on every further program is empty.
-/

namespace Monkey

open Token (Cursor Kind)

namespace Token.Cursor

variable {c d : Cursor}

theorem getElem?_pending (c : Cursor) (k : Nat) :
    c.pending[k]? = if (c.ahead k).kind = .eof then none else some (c.ahead k) := by
  rw [ahead, List.getD_eq_getElem?_getD]
  cases hk : c.pending[k]? with
  | none => simp [c.stop_eq_eof]
  | some t => simp [c.pending_ne_eof t (List.mem_of_getElem? hk)]

/-- Cursors that agree as far as one likes are one. -/
theorem eq_of_agreeTo (h : ∀ n, c.AgreeTo n d) : d = c := by
  have hahead (k : Nat) : d.ahead k = c.ahead k := (h (c.index + k)).ahead k (Nat.le_refl _)
  have hpending : d.pending = c.pending := by
    apply List.ext_getElem?
    intro k
    rw [getElem?_pending, getElem?_pending, hahead]
  refine ext_of_eq (h 0).index hpending ?_
  have hstop := hahead c.pending.length
  rw [ahead, ahead, hpending] at hstop
  simpa using hstop

theorem left_eq_zero_iff : c.left = 0 ↔ c.peek.kind = .eof := by
  constructor
  · intro h
    exact Decidable.byContradiction fun hk => absurd (left_pos_iff.2 hk) (by omega)
  · intro h
    have hpos := mt left_pos_iff.1 (not_not_intro h)
    omega

end Token.Cursor

namespace Parser

variable {α : Type} {c c' : Cursor} {n : Nat}

/-- A parser that is steady towards another one ends where the other one does. -/
theorem Steady.runAt_eq {p q : Parser α} (h : Steady p q) {r : Except Fault α}
    (hr : p.runAt c = some (r, c')) : q.runAt c = some (r, c') := by
  obtain ⟨-, hagree⟩ := h c r c' hr
  obtain ⟨d, hd, -⟩ := hagree _ c (Nat.le_refl _) (.refl _ c)
  have heq : d = c' := by
    apply Cursor.eq_of_agreeTo
    intro n
    obtain ⟨d', hd', hn⟩ := hagree (max n (horizon r c')) c (Nat.le_max_right _ _) (.refl _ c)
    rw [hd] at hd'
    cases hd'
    exact ⟨hn.index, fun k hk => hn.ahead k (Nat.le_trans hk (Nat.le_max_left _ _))⟩
  rwa [heq] at hd

theorem runAt_program_of_le (h : budgetAt c ≤ n) : (program n).runAt c = some (parse c) :=
  ((steadyAt h).statements [.eof]).runAt_eq (runAt_program c)

theorem runAt_expression (level : Precedence) (c : Cursor) :
    (expression (budgetAt c) level).runAt c = some (parseExpression level c) := by
  rw [parseExpression, Option.some_get]

theorem runAt_expression_of_le {level : Precedence} (h : budgetAt c ≤ n) :
    (expression n level).runAt c = some (parseExpression level c) :=
  ((steadyAt h).expression level).runAt_eq (runAt_expression level c)

theorem left_parse_le (c : Cursor) : (parse c).2.left ≤ c.left := by
  obtain ⟨r, d, hr, hle, -⟩ := program_ends c
  rw [runAt_program, Option.some.injEq] at hr
  rw [hr]
  exact hle

theorem left_parseExpression_le (level : Precedence) (c : Cursor) :
    (parseExpression level c).2.left ≤ c.left := by
  obtain ⟨r, d, hr, hle, -⟩ := expression_ends level c
  rw [runAt_expression, Option.some.injEq] at hr
  rw [hr]
  exact hle

/-- Statements that are read end before one of the tokens that close them. -/
theorem closer_of_statements {closers : List Kind} {ss : List Stmt}
    (h : (statements n closers).runAt c = some (.ok ss, c')) : c'.peek.kind ∈ closers := by
  induction n generalizing c ss with
  | zero => cases h
  | succ n ih =>
    change (if c.peek.kind ∈ closers then pure []
      else statement n >>= fun s => statements n closers >>= fun ss => pure (s :: ss)).runAt c = _
      at h
    split at h
    · next hc =>
      cases h
      exact hc
    · rw [runAt_bind] at h
      obtain ⟨⟨_ | s, d⟩, -, h⟩ := Option.bind_eq_some_iff.1 h
      · cases h
      simp only [runAt_bind] at h
      obtain ⟨⟨_ | ss', e⟩, hrest, h⟩ := Option.bind_eq_some_iff.1 h
      · cases h
      · cases h
        exact ih hrest

theorem left_parse_eq_zero {p : Program} (h : (parse c).1 = .ok p) : (parse c).2.left = 0 := by
  have hrun : (program (budgetAt c)).runAt c = some (.ok p, (parse c).2) := by
    rw [runAt_program, ← h]
  rw [Cursor.left_eq_zero_iff]
  simpa using closer_of_statements hrun

/-- At the end of text there is nothing left to read. -/
theorem parse_eq_of_left (h : c.left = 0) : parse c = (.ok [], c) := by
  have hrun : (program (budgetAt c)).runAt c = some (.ok [], c) := by
    change (if c.peek.kind ∈ [Kind.eof] then _ else _ : Parser Program).runAt c = _
    rw [if_pos (by simp [Cursor.left_eq_zero_iff.1 h])]
    rfl
  rw [runAt_program] at hrun
  exact Option.some.inj hrun

end Parser

namespace Descent

theorem runOn_map {α β : Type} (f : α → β) (p : Descent α) (t : Tape) :
    (f <$> p).runOn t = (p.runOn t).map fun (r, t') => (r.map f, t') := by
  rw [map_eq_pure_bind, runOn_bind]
  rcases p.runOn t with _ | ⟨_ | a, t'⟩ <;> rfl

end Descent

namespace Tape

variable {t : Tape} {c : Cursor}

/-- The index of the first end of text. -/
def endIndex (t : Tape) : Nat :=
  t.tokens.toList.findIdx (·.kind = .eof)

/-- What the parser of the grammar answers to a request, and where its cursor is left. -/
def answerAt (c : Cursor) : Request → Except Halt Tree × Cursor
  | .program =>
    ((((Parser.parse c).1).mapError .fault).map .program, (Parser.parse c).2)
  | .expression level =>
    ((((Parser.parseExpression level c).1).mapError .fault).map .expression,
      (Parser.parseExpression level c).2)

/-- The answers to several requests, and where the last one leaves the cursor. -/
def answersAt (c : Cursor) : List Request → List (Except Halt Tree) × Cursor
  | [] => ([], c)
  | r :: rs =>
    let (answers, d) := answersAt (answerAt c r).2 rs
    ((answerAt c r).1 :: answers, d)

theorem perform_of_at (h : t.At c) (r : Request) :
    ∃ u, t.perform r = some ((answerAt c r).1, u) ∧ u.tokens = t.tokens ∧
      u.At (answerAt c r).2 := by
  have hbudget : Parser.budgetAt c ≤ t.budget := by
    have := h.left_lt_size
    unfold Parser.budgetAt budget
    omega
  have hfollows := Descent.followsWith t.budget
  cases r with
  | program =>
    obtain ⟨u, hu, htokens, hat⟩ :=
      hfollows.statements [.eof] c t h _ _ (Parser.runAt_program_of_le hbudget)
    refine ⟨u, ?_, htokens, hat⟩
    rw [perform, Descent.runOn_map, Descent.program, hu]
    rfl
  | expression level =>
    obtain ⟨u, hu, htokens, hat⟩ :=
      hfollows.expression level c t h _ _ (Parser.runAt_expression_of_le hbudget)
    refine ⟨u, ?_, htokens, hat⟩
    rw [perform, Descent.runOn_map, hu]
    rfl

theorem performAll_of_at (h : t.At c) (rs : List Request) :
    ∃ u, t.performAll rs = some ((answersAt c rs).1, u) ∧ u.tokens = t.tokens ∧
      u.At (answersAt c rs).2 := by
  induction rs generalizing t c with
  | nil => exact ⟨t, rfl, rfl, h⟩
  | cons r rs ih =>
    obtain ⟨u, hu, htokens, hat⟩ := perform_of_at h r
    obtain ⟨w, hw, htokens', hat'⟩ := ih hat
    refine ⟨w, ?_, htokens'.trans htokens, hat'⟩
    simp only [performAll, hu, hw, Option.bind_eq_bind, Option.bind_some]
    rfl

/-! ## Bounds -/

theorem At.index_le (h : t.At c) : t.index ≤ t.endIndex := by
  rw [endIndex, h.findIdx_eq]
  omega

theorem At.endIndex_lt (h : t.At c) : t.endIndex < t.tokens.size := by
  rw [endIndex, h.findIdx_eq]
  exact h.left_lt_size

theorem left_answerAt_le (c : Cursor) (r : Request) : (answerAt c r).2.left ≤ c.left := by
  cases r with
  | program => exact Parser.left_parse_le c
  | expression level => exact Parser.left_parseExpression_le level c

theorem left_answersAt_le (c : Cursor) (rs : List Request) :
    (answersAt c rs).2.left ≤ c.left := by
  induction rs generalizing c with
  | nil => exact Nat.le_refl _
  | cons r rs ih => exact Nat.le_trans (ih _) (left_answerAt_le c r)

theorem ne_outside_of_answerAt (c : Cursor) (r : Request) :
    (answerAt c r).1 ≠ .error .outside := by
  cases r with
  | program => simp only [answerAt]; cases (Parser.parse c).1 <;> exact nofun
  | expression level =>
    simp only [answerAt]
    cases (Parser.parseExpression level c).1 <;> exact nofun

theorem ne_outside_of_answersAt (c : Cursor) (rs : List Request) :
    ∀ answer ∈ (answersAt c rs).1, answer ≠ .error .outside := by
  induction rs generalizing c with
  | nil => exact nofun
  | cons r rs ih => exact List.forall_mem_cons.2 ⟨ne_outside_of_answerAt c r, ih _⟩

theorem endIndex_congr {u : Tape} (h : u.tokens = t.tokens) : u.endIndex = t.endIndex := by
  rw [endIndex, endIndex, h]

theorem At.index_le_of_perform {u : Tape} {r : Request} {answer : Except Halt Tree} (h : t.At c)
    (hr : t.perform r = some (answer, u)) : t.index ≤ u.index := by
  obtain ⟨u', hu', htokens, hat⟩ := perform_of_at h r
  rw [hr] at hu'
  cases hu'
  have hleft := left_answerAt_le c r
  have hend := endIndex_congr htokens
  rw [endIndex, endIndex, h.findIdx_eq, hat.findIdx_eq] at hend
  omega

/-- At the end of text a tape gives an empty program, and stays as it is. -/
theorem At.perform_program_of_left (h : t.At c) (hc : c.left = 0) :
    t.perform .program = some (.ok (.program []), t) := by
  obtain ⟨u, hu, htokens, hat⟩ := perform_of_at h .program
  have hanswer : answerAt c .program = (.ok (.program []), c) := by
    simp only [answerAt, Parser.parse_eq_of_left hc]
    rfl
  rw [hanswer] at hu hat
  have hindex : u.index = t.index := hat.index.trans h.index.symm
  have htape : u = t := by
    cases u
    cases t
    simp_all
  rwa [htape] at hu

theorem At.left_of_program {u : Tape} {p : Program} (h : t.At c)
    (hp : t.perform .program = some (.ok (.program p), u)) :
    ∃ d, u.At d ∧ d.left = 0 ∧ u.index = t.endIndex := by
  obtain ⟨u', hu', htokens, hat⟩ := perform_of_at h .program
  rw [hp] at hu'
  obtain ⟨hanswer, rfl⟩ := Prod.mk.inj (Option.some.inj hu')
  have hparse : ∃ q, (Parser.parse c).1 = .ok q := by
    simp only [answerAt] at hanswer
    cases hq : (Parser.parse c).1 with
    | ok q => exact ⟨q, rfl⟩
    | error e =>
      rw [hq] at hanswer
      cases hanswer
  obtain ⟨q, hq⟩ := hparse
  have hleft : (answerAt c .program).2.left = 0 := Parser.left_parse_eq_zero hq
  refine ⟨_, hat, hleft, ?_⟩
  rw [← endIndex_congr htokens, endIndex, hat.findIdx_eq, hleft, Nat.add_zero]

/--
A parser answers every request, whatever the tokens are: it never looks outside of the array. The
index stays at or before the first end of text and never goes back; the tokens after that one make
no difference. A program that is read leaves the index on the end of text, where every further
program is empty.
-/
theorem performAll_bounded (ts : List Token) (rs : List Request) :
    ∃ answers t, (ofTokens ts).performAll rs = some (answers, t) ∧
      (∀ answer ∈ answers, answer ≠ .error .outside) ∧
      t.tokens = (ofTokens ts).tokens ∧ t.index ≤ t.endIndex ∧ t.endIndex < t.tokens.size ∧
      (∀ r answer u, t.perform r = some (answer, u) → t.index ≤ u.index) ∧
      (∀ us before e after after', (∀ u ∈ before, u.kind ≠ .eof) → e.kind = .eof →
        (ofTokens ts).tokens.toList = before ++ e :: after →
        (ofTokens us).tokens.toList = before ++ e :: after' →
        ∃ u, (ofTokens us).performAll rs = some (answers, u) ∧ u.index = t.index) ∧
      ∀ p u, t.perform .program = some (.ok (.program p), u) → u.index = t.endIndex ∧
        ∀ later answers' w, u.performAll later = some (answers', w) →
          w.perform .program = some (.ok (.program []), w) := by
  obtain ⟨t, ht, htokens, hat⟩ := performAll_of_at (at_ofTokens ts) rs
  refine ⟨_, t, ht, ne_outside_of_answersAt _ rs, htokens, hat.index_le, hat.endIndex_lt,
    fun r answer u => hat.index_le_of_perform, ?_, ?_⟩
  · intro us before e after after' hbefore he hts hus
    obtain ⟨u, hu, -, hat'⟩ := performAll_of_at (at_ofTokens_of_agree hbefore he hts hus) rs
    exact ⟨u, hu, hat'.index.trans hat.index.symm⟩
  · intro p u hu
    obtain ⟨d, hd, hleft, hindex⟩ := hat.left_of_program hu
    refine ⟨hindex, fun later answers' w hw => ?_⟩
    obtain ⟨w', hw', -, hlast⟩ := performAll_of_at hd later
    rw [hw] at hw'
    cases hw'
    have hle := left_answersAt_le d later
    exact hlast.perform_program_of_left (by omega)

end Tape

end Monkey

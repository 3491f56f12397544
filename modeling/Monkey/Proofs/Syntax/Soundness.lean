import Monkey.Proofs.Syntax.Consumption
import Monkey.Proofs.Syntax.Viable

/-! # What the parser reads

A parser that succeeds has read tokens that spell its result in the grammar.
A parser that fails does so at the first token that cannot stand where it does:
the tokens before it are viable.
-/

namespace Monkey.Parser

open Token

/-- An operand, at a place where the next token binds no tighter than it. -/
def IsOperand (e : Expr) (ts : List Token) (d : Cursor) : Prop :=
  ∃ σ : Stratum, Derives (.expr σ e) ts ∧ Stratum.negation.rank ≤ σ.rank ∧
    (Precedence.ofKind d.peek.kind).rank ≤ σ.rank

theorem IsOperand.primary {e : Expr} {ts : List Token} (h : Derives (.expr .primary e) ts)
    (d : Cursor) : IsOperand e ts d :=
  ⟨.primary, h, by decide, Nat.le_trans (Precedence.rank_le_call _) (by decide)⟩

/-- A statement, whatever of the text after it is taken to follow it. -/
def IsStatement (s : Stmt) (ts : List Token) (d : Cursor) : Prop :=
  ∀ next, (∀ t ∈ next, t = d.peek) → Derives (.statement next s) ts

/-- An expression read at a level, at a place where the next token binds no tighter. -/
def IsRead (level : Precedence) (e : Expr) (ts : List Token) (d : Cursor) : Prop :=
  Derives (.expr level.above e) ts ∧ ¬ level < Precedence.ofKind d.peek.kind

/-- A list of parameters or arguments with the closing parenthesis after it. -/
def IsClosed {α : Type} (φ : α → Phrase) (a : α) (ts : List Token) (_ : Cursor) : Prop :=
  ∃ us r, ts = us ++ [r] ∧ r.kind = .rparen ∧ Derives (φ a) us

theorem moreParameters_sound (n : Nat) (c : Cursor) :
    Consumes (moreParameters n) c (IsClosed .moreParameters) (Viable .moreParameters) := by
  induction n generalizing c with
  | zero => exact .outOfBudget
  | succ n ih =>
    apply Consumes.expect_bind (by decide) .moreParameters_nil
    intro x c₁ hx _
    have hx : x.kind = .ident := by simpa using hx
    apply Consumes.expect_bind (by decide) (Derives.lastParameter hx).viable
    intro s c₂ hs _
    split
    · next hcomma =>
      apply (ih c₂).bind
      · rintro xs _ d _ ⟨us, r, rfl, hr, hxs⟩
        exact .pure ⟨x :: s :: us, r, by simp, hr, .nextParameter hx hcomma hxs⟩
      · exact fun ts _ _ hts => hts.nextParameter hx hcomma
    · next hcomma =>
      have hr : s.kind = .rparen := by simpa [hcomma] using hs
      exact .pure ⟨[x], s, rfl, hr, .lastParameter hx⟩

/-- The parameters of a function, with the parentheses around them. -/
theorem parameters_sound (n : Nat) (c : Cursor) {f : Token} (hf : f.kind = .fnWord) :
    Consumes (parameters n) c
      (fun xs ts _ => ∃ l us r, ts = l :: (us ++ [r]) ∧ l.kind = .lparen ∧ r.kind = .rparen ∧
        Derives (.parameters xs) us)
      fun ts => Viable (.expr .primary) (f :: ts) := by
  have hbegin (l : Token) (hl : l.kind = .lparen) {ts : List Token} (h : Viable .parameters ts) :
      Viable (.expr .primary) (f :: l :: ts) := h.fn_parameters hf hl
  apply Consumes.expect_bind (by decide)
  · exact (hbegin (ofKind .lparen) rfl (Derives.viable .noParameters)).of_append
  · intro l c₁ hl _
    have hl : l.kind = .lparen := by simpa using hl
    apply Consumes.accept_bind (by decide)
    · exact fun r d hr _ => .pure ⟨l, [], r, rfl, hl, hr, .noParameters⟩
    · intro _
      apply (moreParameters_sound n c₁).imp
      · rintro xs _ d _ ⟨us, r, rfl, hr, hxs⟩
        exact ⟨l, us, r, rfl, hl, hr, .someParameters hxs⟩
      · exact fun ts _ _ hts => hbegin l hl hts.parameters

/-- What each parser of the grammar has read when it ends. -/
structure SoundAt (n : Nat) : Prop where
  operand (c : Cursor) : Consumes (operand n) c IsOperand (Viable (.expr .negation))
  continuation (level : Precedence) (left : Expr) (c : Cursor) (us : List Token) (σ : Stratum) :
    Derives (.expr σ left) us → level.above.rank ≤ σ.rank →
    (Precedence.ofKind c.peek.kind).rank ≤ σ.rank → Consumes (continuation n level left) c
      (fun e ts => IsRead level e (us ++ ts)) fun ts => Viable (.expr level.above) (us ++ ts)
  block (c : Cursor) : Consumes (block n) c (fun b ts _ => Derives (.block b) ts) (Viable .block)
  expression (level : Precedence) (c : Cursor) :
    Consumes (expression n level) c (IsRead level) (Viable (.expr level.above))
  statement (c : Cursor) : Consumes (statement n) c IsStatement (Viable (.statement none))
  moreArguments (c : Cursor) :
    Consumes (moreArguments n) c (IsClosed .moreArguments) (Viable .moreArguments)
  statements (closers : List Kind) (c : Cursor) : Consumes (statements n closers) c
    (fun ss ts d => Derives (.statements ss) ts ∧ d.peek.kind ∈ closers)
    fun ts => ∃ ss us, Derives (.statements ss) (ts ++ us) ∧ (ts = [] → us = [])
  arguments (c : Cursor) : Consumes (arguments n) c (IsClosed .arguments) (Viable .arguments)

section Step

variable {n : Nat}

theorem bind_sound (ih : SoundAt n) {c : Cursor} (hw : c.peek.kind = .letWord) :
    Consumes (do
      advance
      let name ← expect [.ident]
      let _ ← expect [.assign]
      let value ← expression n .lowest
      let _ ← expect [.semicolon]
      return Stmt.bind name.literal value) c IsStatement (Viable (.statement none)) := by
  have hbegin (x a : Token) (hx : x.kind = .ident) (ha : a.kind = .assign) :
      Viable (.statement none) [c.peek, x, a] := Viable.bind hw hx ha .expr_nil
  apply Consumes.advance_bind (by simp [hw])
  intro c₁ _
  apply Consumes.expect_bind (by decide)
  · exact (hbegin (ofKind .ident) (ofKind .assign) rfl rfl).of_append
  intro x c₂ hx _
  have hx : x.kind = .ident := by simpa using hx
  apply Consumes.expect_bind (by decide)
  · exact (hbegin x (ofKind .assign) hx rfl).of_append
  intro a c₃ ha _
  have ha : a.kind = .assign := by simpa using ha
  apply (ih.expression .lowest c₃).bind
  · rintro e us c₄ _ ⟨he, -⟩
    apply Consumes.expect_bind (by decide)
    · simpa using Viable.bind hw hx ha he.viable
    · intro z d hz _
      exact .pure fun next _ => .bind hw hx ha he (by simpa using hz)
  · exact fun ts _ _ hts => Viable.bind hw hx ha hts

theorem ret_sound (ih : SoundAt n) {c : Cursor} (hw : c.peek.kind = .returnWord) :
    Consumes (do
      advance
      let value ← expression n .lowest
      let _ ← expect [.semicolon]
      return Stmt.ret value) c IsStatement (Viable (.statement none)) := by
  apply Consumes.advance_bind (by simp [hw])
  intro c₁ _
  apply (ih.expression .lowest c₁).bind
  · rintro e us c₂ _ ⟨he, -⟩
    apply Consumes.expect_bind (by decide)
    · simpa using Viable.ret hw he.viable
    · intro z d hz _
      exact .pure fun next _ => .ret hw he (by simpa using hz)
  · exact fun ts _ _ hts => Viable.ret hw hts

theorem statement_sound (ih : SoundAt n) (c : Cursor) :
    Consumes (statement (n + 1)) c IsStatement (Viable (.statement none)) := by
  apply Consumes.peek_bind
  split
  · next hw => exact bind_sound ih hw
  · next hw => exact ret_sound ih hw
  · apply (ih.expression .lowest c).bind
    · rintro e us c₁ _ ⟨he, hstop⟩
      apply Consumes.accept_bind (by decide)
      · exact fun z d hz _ => .pure fun next _ => .ended he hz
      · -- The token after a bare expression neither binds nor is a semicolon.
        intro hz
        apply Consumes.pure
        intro next hnext
        rw [List.append_nil]
        apply Derives.bare he
        intro t ht
        rw [hnext t ht, Token.Kind.mem_continuing]
        exact fun h => h.elim hstop hz
    · exact fun ts _ _ hts => hts.bare

theorem statements_sound (ih : SoundAt n) (closers : List Kind) (c : Cursor) :
    Consumes (statements (n + 1) closers) c
      (fun ss ts d => Derives (.statements ss) ts ∧ d.peek.kind ∈ closers)
      fun ts => ∃ ss us, Derives (.statements ss) (ts ++ us) ∧ (ts = [] → us = []) := by
  -- What follows a statement in the list is what follows it in the text.
  have hnext {ts us : List Token} {d d' : Cursor} (hd : d.Reads ts d') (hus : ts = [] → us = []) :
      ∀ t ∈ (ts ++ us).head?, t = d.peek := by
    intro t ht
    cases ts with
    | nil => simp [hus rfl] at ht
    | cons u ts => rw [hd.peek_eq]; simpa using ht.symm
  apply Consumes.peek_bind
  split
  · next hc => exact .pure ⟨.noStatements, hc⟩
  · apply (ih.statement c).bind
    · intro s ts c₁ _ hs
      apply (ih.statements closers c₁).bind
      · rintro ss us c₂ hus ⟨hss, hc⟩
        have hhead : ∀ t ∈ (us ++ []).head?, t = c₁.peek := hnext hus fun _ => rfl
        rw [List.append_nil] at hhead
        exact .pure ⟨by simpa using (hs _ hhead).nextStatement hss, hc⟩
      · rintro us c₂ hus ⟨ss, vs, hss, hvs⟩
        refine ⟨s :: ss, vs, ?_, fun hnil => hvs (List.append_eq_nil_iff.1 hnil).2⟩
        rw [List.append_assoc]
        exact (hs _ (hnext hus hvs)).nextStatement hss
    · intro ts _ _ hts
      cases ts with
      | nil => exact ⟨[], [], .noStatements, fun _ => rfl⟩
      | cons t ts =>
        obtain ⟨s, us, hs⟩ := hts
        exact ⟨[s], us, hs.singleton, by simp⟩

theorem block_sound (ih : SoundAt n) (c : Cursor) : Consumes (block (n + 1)) c
    (fun b ts _ => Derives (.block b) ts) (Viable .block) := by
  apply Consumes.expect_bind (by decide) .block_nil
  intro l c₁ hl _
  have hl : l.kind = .lbrace := by simpa using hl
  apply (ih.statements [.rbrace, .eof] c₁).bind
  · rintro b ts c₂ _ ⟨hb, -⟩
    apply Consumes.expect_bind (by decide)
    · simpa using hb.viable.block hl
    · intro r d hr _
      exact .pure (.block hl hb (by simpa using hr))
  · rintro ts _ _ ⟨b, us, hb, -⟩
    exact Viable.block hl ⟨b, us, hb⟩

theorem expression_sound (ih : SoundAt n) (level : Precedence) (c : Cursor) :
    Consumes (expression (n + 1) level) c (IsRead level) (Viable (.expr level.above)) := by
  have habove := level.above_le_negation
  apply (ih.operand c).bind
  · rintro left us c₁ _ ⟨σ, hleft, hσ, hpeek⟩
    exact ih.continuation level left c₁ us σ hleft (by omega) hpeek
  · exact fun ts _ _ hts => hts.weaken habove

theorem unary_sound (ih : SoundAt n) {c : Cursor} (op : UnaryOp) (ht : c.peek.kind = op.token) :
    Consumes (do advance; return .unary op (← expression n .unary)) c IsOperand
      (Viable (.expr .negation)) := by
  have heof : c.peek.kind ≠ .eof := by
    rw [ht]
    cases op <;> decide
  apply Consumes.advance_bind heof
  intro c₁ _
  apply (ih.expression .unary c₁).bind
  · rintro e ts d _ ⟨he, hstop⟩
    have hrank := mt Precedence.lt_iff.2 hstop
    apply Consumes.pure
    refine ⟨.negation, by simpa using Derives.unary ht he, Nat.le_refl _, ?_⟩
    exact Nat.le_of_not_lt hrank
  · exact fun ts _ _ hts => hts.unary ht

theorem integer_sound (c : Cursor) : Consumes integer c IsOperand (Viable (.expr .negation)) := by
  intro r c' hr
  rw [runAt_integer, integerAt] at hr
  by_cases hk : c.peek.kind ∈ [Kind.int]
  · have hint : c.peek.kind = .int := by simpa using hk
    have hread : c.Reads [c.peek] c.advance := .advance (by simp [hint])
    rw [if_pos hk, if_pos hk] at hr
    cases hn : Integer.ofNumeral? c.peek.literal with
    | some n =>
      rw [hn] at hr
      cases hr
      exact ⟨_, hread, .primary (.int hint hn) _⟩
    | none =>
      rw [hn] at hr
      cases hr
      exact ⟨[], c, .refl c, rfl, .expr_nil⟩
  · rw [if_neg hk, if_neg hk] at hr
    cases hr
    exact ⟨[], c, .refl c, rfl, .expr_nil⟩

theorem group_sound (ih : SoundAt n) {c : Cursor} (hl : c.peek.kind = .lparen) :
    Consumes (do
      advance
      let inner ← expression n .lowest
      let _ ← expect [.rparen]
      return inner) c IsOperand (Viable (.expr .primary)) := by
  apply Consumes.advance_bind (by simp [hl])
  intro c₁ _
  apply (ih.expression .lowest c₁).bind
  · rintro e ts c₂ _ ⟨he, -⟩
    apply Consumes.expect_bind (by decide)
    · simpa using he.viable.group hl
    · intro r d hr _
      exact .pure (.primary (.group hl he (by simpa using hr)) d)
  · exact fun ts _ _ hts => hts.group hl

theorem cond_sound (ih : SoundAt n) {c : Cursor} (hi : c.peek.kind = .ifWord) :
    Consumes (do
      advance
      let _ ← expect [.lparen]
      let condition ← expression n .lowest
      let _ ← expect [.rparen]
      let consequence ← block n
      if ← accept .elseWord then
        return Expr.cond condition consequence (some (← block n))
      else
        return Expr.cond condition consequence none) c IsOperand (Viable (.expr .primary)) := by
  apply Consumes.advance_bind (by simp [hi])
  intro c₁ _
  apply Consumes.expect_bind (by decide)
  · exact (Viable.expr_nil.cond_condition hi (l := ofKind .lparen) rfl).of_append
  intro l c₂ hl _
  have hl : l.kind = .lparen := by simpa using hl
  apply (ih.expression .lowest c₂).bind
  · rintro e ts c₃ _ ⟨he, -⟩
    apply Consumes.expect_bind (by decide)
    · simpa using he.viable.cond_condition hi hl
    intro r c₄ hr _
    have hr : r.kind = .rparen := by simpa using hr
    apply (ih.block c₄).bind
    · intro b us c₅ _ hb
      apply Consumes.accept_bind (by decide)
      · intro w c₆ hw _
        apply (ih.block c₆).bind
        · intro b' vs d _ hb'
          apply Consumes.pure
          apply IsOperand.primary
          simpa using he.condElse hi hl hr hb hw hb'
        · intro vs _ _ hvs
          simpa using hvs.cond_alternative hi hl he hr hb hw
      · intro _
        apply Consumes.pure
        apply IsOperand.primary
        simpa using he.cond hi hl hr hb
    · exact fun us _ _ hus => hus.cond_consequence hi hl he hr
  · exact fun ts _ _ hts => hts.cond_condition hi hl

theorem fn_sound (ih : SoundAt n) {c : Cursor} (hf : c.peek.kind = .fnWord) :
    Consumes (do
      advance
      let params ← parameters n
      let body ← block n
      return Expr.fn params body) c IsOperand (Viable (.expr .primary)) := by
  apply Consumes.advance_bind (by simp [hf])
  intro c₁ _
  apply (parameters_sound n c₁ hf).bind
  · rintro xs _ c₂ _ ⟨l, us, r, rfl, hl, hr, hxs⟩
    apply (ih.block c₂).bind
    · intro b ts d _ hb
      apply Consumes.pure
      apply IsOperand.primary
      simpa using Derives.fn hf hl hxs hr hb
    · intro ts _ _ hts
      simpa using hts.fn_body hf hl hxs hr
  · exact fun ts _ _ hts => hts

theorem operand_sound (ih : SoundAt n) (c : Cursor) :
    Consumes (operand (n + 1)) c IsOperand (Viable (.expr .negation)) := by
  have primary {p : Parser Expr} (h : Consumes p c IsOperand (Viable (.expr .primary))) :
      Consumes p c IsOperand (Viable (.expr .negation)) :=
    h.imp (fun _ _ _ _ he => he) fun _ _ _ hts => hts.weaken (by decide)
  apply Consumes.peek_bind
  split
  · next hk =>
    apply Consumes.advance_bind (by simp [hk])
    exact fun d _ => .pure (.primary (.ident hk) d)
  · exact integer_sound c
  · next hk =>
    apply Consumes.advance_bind (by simp [hk])
    exact fun d _ => .pure (.primary (.str hk) d)
  · next hk =>
    apply Consumes.advance_bind (by simp [hk])
    exact fun d _ => .pure (.primary (.trueWord hk) d)
  · next hk =>
    apply Consumes.advance_bind (by simp [hk])
    exact fun d _ => .pure (.primary (.falseWord hk) d)
  · next hk => exact unary_sound ih .neg hk
  · next hk => exact unary_sound ih .not hk
  · next hk => exact primary (group_sound ih hk)
  · next hk => exact primary (cond_sound ih hk)
  · next hk => exact primary (fn_sound ih hk)
  · exact .refuse (fun _ _ => rfl) .expr_nil

/-- An operator forms an expression of its own stratum, with which the loop goes on. -/
theorem operator_sound (ih : SoundAt n) {level : Precedence} {left : Expr} {c : Cursor}
    {us : List Token} {op : BinaryOp} (hop : c.peek.kind = op.token)
    (hlt : level < Precedence.ofKind op.token) (hleft : Derives (.expr op.stratum left) us) :
    Consumes (do
      advance
      let right ← expression n (.ofKind op.token)
      continuation n level (.binary op left right)) c
      (fun e ts => IsRead level e (us ++ ts)) fun ts => Viable (.expr level.above) (us ++ ts) := by
  have heof : c.peek.kind ≠ .eof := ne_eof_of_lowest_lt (hop ▸ hlt)
  have habove := Precedence.above_le_stratum hlt
  have hτ := Precedence.stratum_lt_above op
  apply Consumes.advance_bind heof
  intro c₁ _
  apply (ih.expression _ c₁).bind
  · rintro right ts c₂ _ ⟨hright, hstop⟩
    have hbinary := hleft.binary hop hτ hright
    have hrank := Nat.le_of_not_lt (mt Precedence.lt_iff.2 hstop)
    rw [Precedence.rank_ofKind_token] at hrank
    apply (ih.continuation level _ c₂ _ _ hbinary habove hrank).imp
    · rintro e vs d _ ⟨he, hend⟩
      exact ⟨by simpa using he, hend⟩
    · intro vs _ _ hvs
      simpa using hvs
  · intro ts _ _ hts
    exact (hts.binary hleft hop hτ).weaken habove

theorem call_sound (ih : SoundAt n) {level : Precedence} {left : Expr} {c : Cursor}
    {us : List Token} (hl : c.peek.kind = .lparen) (hleft : Derives (.expr .call left) us) :
    Consumes (do
      advance
      let args ← arguments n
      continuation n level (.call left args)) c
      (fun e ts => IsRead level e (us ++ ts)) fun ts => Viable (.expr level.above) (us ++ ts) := by
  have habove : level.above.rank ≤ Stratum.call.rank :=
    Nat.le_trans level.above_le_negation (by decide)
  apply Consumes.advance_bind (by simp [hl])
  intro c₁ _
  apply (ih.arguments c₁).bind
  · rintro args _ c₂ _ ⟨ts, r, rfl, hr, hargs⟩
    have hcall := hleft.call hl hargs hr
    apply (ih.continuation level _ c₂ _ _ hcall habove (Precedence.rank_le_call _)).imp
    · rintro e vs d _ ⟨he, hend⟩
      exact ⟨by simpa using he, hend⟩
    · intro vs _ _ hvs
      simpa using hvs
  · intro ts _ _ hts
    exact (hts.call hleft hl).weaken habove

theorem continuation_sound (ih : SoundAt n) (level : Precedence) (left : Expr) (c : Cursor)
    (us : List Token) (σ : Stratum) (hleft : Derives (.expr σ left) us)
    (hlevel : level.above.rank ≤ σ.rank)
    (hpeek : (Precedence.ofKind c.peek.kind).rank ≤ σ.rank) :
    Consumes (continuation (n + 1) level left) c
      (fun e ts => IsRead level e (us ++ ts)) fun ts => Viable (.expr level.above) (us ++ ts) := by
  have hread : Derives (.expr level.above left) us := hleft.weaken hlevel
  apply Consumes.peek_bind
  split
  · next hlt =>
    split
    · next op hop =>
      have hop := BinaryOp.eq_token hop
      rw [hop] at hlt hpeek ⊢
      rw [Precedence.rank_ofKind_token] at hpeek
      exact operator_sound ih hop hlt (hleft.weaken hpeek)
    · next hl =>
      rw [hl] at hpeek
      exact call_sound ih hl (hleft.weaken hpeek)
    · exact .refuse (fun _ _ => rfl) (by simpa using hread.viable)
  · next hstop => exact .pure ⟨by simpa using hread, hstop⟩

theorem moreArguments_sound (ih : SoundAt n) (c : Cursor) :
    Consumes (moreArguments (n + 1)) c (IsClosed .moreArguments) (Viable .moreArguments) := by
  apply (ih.expression .lowest c).bind
  · rintro e us c₁ _ ⟨he, -⟩
    apply Consumes.expect_bind (by decide)
    · simpa using he.viable.lastArgument
    intro s c₂ hs _
    split
    · next hcomma =>
      apply (ih.moreArguments c₂).bind
      · rintro es _ d _ ⟨vs, r, rfl, hr, hes⟩
        exact .pure ⟨us ++ s :: vs, r, by simp, hr, he.nextArgument hcomma hes⟩
      · exact fun vs _ _ hvs => hvs.nextArgument he hcomma
    · next hcomma =>
      have hr : s.kind = .rparen := by simpa [hcomma] using hs
      exact .pure ⟨us, s, rfl, hr, .lastArgument he⟩
  · exact fun ts _ _ hts => hts.lastArgument

theorem arguments_sound (ih : SoundAt n) (c : Cursor) :
    Consumes (arguments (n + 1)) c (IsClosed .arguments) (Viable .arguments) := by
  apply Consumes.accept_bind (by decide)
  · exact fun r d hr _ => .pure ⟨[], r, rfl, hr, .noArguments⟩
  · intro _
    apply (ih.moreArguments c).imp
    · rintro es _ d _ ⟨us, r, rfl, hr, hes⟩
      exact ⟨us, r, rfl, hr, .someArguments hes⟩
    · exact fun ts _ _ hts => hts.arguments

end Step

theorem soundAt (n : Nat) : SoundAt n := by
  induction n with
  | zero => constructor <;> intros <;> exact .outOfBudget
  | succ n ih =>
    exact ⟨operand_sound ih, continuation_sound ih, block_sound ih, expression_sound ih,
      statement_sound ih, moreArguments_sound ih, statements_sound ih, arguments_sound ih⟩

end Monkey.Parser

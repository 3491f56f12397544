import Monkey.Proofs.Syntax.Levels
import Monkey.Proofs.Syntax.Locality
import Monkey.Proofs.Syntax.Reading

/-! # Whatever the grammar derives is parsed

A derivation drives the parser. An expression of a stratum hands the loop of
operators back at the place after it, so the statement about expressions is
relative to what that loop does next; all other phrases are read as they stand.
-/

namespace Monkey.Parser

open Token

variable {α β : Type}

/-- With enough budget, `p` goes from `c` to `d` and gives `a`. -/
def Yields (p : Nat → Parser α) (c : Cursor) (a : α) (d : Cursor) : Prop :=
  ∃ n, ∀ m, n ≤ m → (p m).runAt c = some (.ok a, d)

namespace Yields

variable {p q : Nat → Parser α} {a : α} {b : β} {c d c' : Cursor}

theorem succ (h : Yields (fun n => p (n + 1)) c a d) : Yields p c a d := by
  obtain ⟨n, hn⟩ := h
  refine ⟨n + 1, fun m hm => ?_⟩
  obtain ⟨k, rfl⟩ : ∃ k, m = k + 1 := ⟨m - 1, by omega⟩
  exact hn k (by omega)

theorem congr (h : ∀ n, (p n).runAt c = (q n).runAt c) (hq : Yields q c a d) :
    Yields p c a d := by
  obtain ⟨n, hn⟩ := hq
  exact ⟨n, fun m hm => (h m).trans (hn m hm)⟩

theorem pure : Yields (fun _ => (Pure.pure a : Parser α)) c a c := ⟨0, fun _ _ => rfl⟩

theorem bind {f : Nat → α → Parser β} (hp : Yields p c a d)
    (hf : Yields (fun n => f n a) d b c') : Yields (fun n => p n >>= f n) c b c' := by
  obtain ⟨n, hn⟩ := hp
  obtain ⟨k, hk⟩ := hf
  refine ⟨max n k, fun m hm => ?_⟩
  rw [runAt_bind, hn m (by omega)]
  exact hk m (by omega)

theorem peek {f : Nat → Token → Parser β} (h : Yields (fun n => f n c.peek) c b d) :
    Yields (fun n => peek >>= f n) c b d := h

theorem advance {f : Nat → Unit → Parser β} (h : Yields (fun n => f n ()) c.advance b d) :
    Yields (fun n => advance >>= f n) c b d :=
  bind ⟨0, fun _ _ => rfl⟩ h

theorem expect {kinds : List Kind} {f : Nat → Token → Parser β} (hk : c.peek.kind ∈ kinds)
    (h : Yields (fun n => f n c.peek) c.advance b d) :
    Yields (fun n => expect kinds >>= f n) c b d := by
  refine bind ⟨0, fun _ _ => ?_⟩ h
  rw [runAt_expect, if_pos hk, if_pos hk]

theorem accept {kind : Kind} {f : Nat → Bool → Parser β} (hk : c.peek.kind = kind)
    (h : Yields (fun n => f n true) c.advance b d) :
    Yields (fun n => accept kind >>= f n) c b d := by
  refine bind ⟨0, fun _ _ => ?_⟩ h
  rw [runAt_accept, if_pos hk, decide_eq_true hk]

theorem pass {kind : Kind} {f : Nat → Bool → Parser β} (hk : c.peek.kind ≠ kind)
    (h : Yields (fun n => f n false) c b d) :
    Yields (fun n => Parser.accept kind >>= f n) c b d := by
  refine bind ⟨0, fun _ _ => ?_⟩ h
  rw [runAt_accept, if_neg hk, decide_eq_false hk]

end Yields

/--
What the parser does with a derived phrase wherever its tokens come next. After an expression the
loop of operators goes on, so what that loop yields is what the whole expression yields.
-/
def Parsed : Phrase → List Token → Prop
  | .expr σ e, ts => ∀ c c', c.Reads ts c' → c'.peek.kind ≠ .elseWord →
      (Precedence.ofKind c'.peek.kind).rank ≤ σ.rank →
      ∀ level : Precedence, level ≠ .call → level.above.rank ≤ σ.rank →
      ∀ r d, Yields (continuation · level e) c' r d → Yields (expression · level) c r d
  | .parameters xs, ts => ∀ l c c', l.kind = .lparen → c.Reads (l :: ts) c' →
      c'.peek.kind = .rparen → Yields parameters c xs c'.advance
  | .moreParameters xs, ts => ∀ c c', c.Reads ts c' → c'.peek.kind = .rparen →
      Yields moreParameters c xs c'.advance
  | .arguments es, ts => ∀ c c', c.Reads ts c' → c'.peek.kind = .rparen →
      Yields arguments c es c'.advance
  | .moreArguments es, ts => ∀ c c', c.Reads ts c' → c'.peek.kind = .rparen →
      Yields moreArguments c es c'.advance
  | .block b, ts => ∀ c c', c.Reads ts c' → Yields block c b c'
  | .statement next s, ts => ∀ c c', c.Reads ts c' → c'.peek.kind ≠ .elseWord →
      next = some c'.peek ∨ next = none ∧ c'.peek.kind ∈ [.rbrace, .eof] → Yields statement c s c'
  | .statements ss, ts => ∀ closers c c', c.Reads ts c' → closers ⊆ [.rbrace, .eof] →
      c'.peek.kind ∈ closers → Yields (statements · closers) c ss c'

section Rules

variable {c c' d : Cursor} {e r : Expr} {level : Precedence} {ts us : List Token} {t : Token}

theorem continuation_stop (h : ¬ level < Precedence.ofKind c.peek.kind) :
    Yields (continuation · level e) c e c := by
  apply Yields.succ
  apply Yields.peek
  simp only [if_neg h]
  exact .pure

theorem expression_of_operand (h : Yields operand c e c')
    (hr : Yields (continuation · level e) c' r d) : Yields (expression · level) c r d := by
  apply Yields.succ
  exact h.bind hr

/-- A whole expression is read if a token stands after it that does not go on with it. -/
theorem expression_before {k : Kind} (h : Parsed (.expr .equality e) ts) (hts : c.Reads ts c')
    (hk : c'.peek.kind = k) (hstop : ¬ Precedence.lowest < Precedence.ofKind k ∧ k ≠ .elseWord) :
    Yields (expression · .lowest) c e c' := by
  obtain ⟨hlt, helse⟩ := hstop
  rw [← hk] at hlt helse
  have hrank := Precedence.not_lowest_lt.1 hlt
  exact h c c' hts helse (by omega) .lowest (by decide) (by decide) e c' (continuation_stop hlt)

/-- A primary expression is an operand, which binds tighter than every operator. -/
theorem parsed_of_operand
    (h : ∀ c c', c.Reads ts c' → c'.peek.kind ≠ .elseWord → Yields operand c e c') :
    Parsed (.expr .primary e) ts := by
  intro c c' hts helse _ level _ _ r d hr
  exact expression_of_operand (h c c' hts helse) hr

theorem parsed_of_token
    (h : ∀ n c, c.peek = t → (operand (n + 1)).runAt c = some (.ok e, c.advance)) :
    Parsed (.expr .primary e) [t] := by
  apply parsed_of_operand
  intro c c' hts _
  rw [hts.eq_advance]
  exact Yields.succ ⟨0, fun n _ => h n c hts.peek_eq⟩

theorem ident_parsed (ht : t.kind = .ident) : Parsed (.expr .primary (.ident t.literal)) [t] := by
  apply parsed_of_token
  intro n c hc
  rw [operand, runAt_peek_bind, hc]
  simp only [ht]
  rfl

theorem int_parsed {i : Integer} (ht : t.kind = .int) (hi : Integer.ofNumeral? t.literal = some i) :
    Parsed (.expr .primary (.int i)) [t] := by
  apply parsed_of_token
  intro n c hc
  have hk : t.kind ∈ [Kind.int] := by simp [ht]
  rw [operand, runAt_peek_bind, hc]
  simp only [ht]
  rw [runAt_integer, integerAt, hc, if_pos hk, if_pos hk, hi]

theorem str_parsed (ht : t.kind = .string) :
    Parsed (.expr .primary (.str (Text.unquote t.literal))) [t] := by
  apply parsed_of_token
  intro n c hc
  rw [operand, runAt_peek_bind, hc]
  simp only [ht]
  rfl

theorem bool_parsed {b : Bool} (ht : t.kind = if b then .trueWord else .falseWord) :
    Parsed (.expr .primary (.bool b)) [t] := by
  apply parsed_of_token
  intro n c hc
  rw [operand, runAt_peek_bind, hc, ht]
  cases b <;> rfl

theorem group_parsed {l : Token} (hl : l.kind = .lparen) (h : Parsed (.expr .equality e) ts)
    (hr : t.kind = .rparen) : Parsed (.expr .primary e) (l :: (ts ++ [t])) := by
  apply parsed_of_operand
  intro c c' hread _
  obtain ⟨c₁, hts, hend⟩ := hread.tail.split
  have ht : c₁.peek.kind = .rparen := by rw [hend.peek_eq, hr]
  apply Yields.succ
  apply Yields.peek
  rw [hread.peek_eq, hend.eq_advance]
  simp only [hl]
  apply Yields.advance
  apply (expression_before h hts ht (by decide)).bind
  exact .expect (by simp [ht]) .pure

theorem cond_parsed {i l r : Token} {b : Block} (hi : i.kind = .ifWord) (hl : l.kind = .lparen)
    (h : Parsed (.expr .equality e) ts) (hr : r.kind = .rparen) (hb : Parsed (.block b) us) :
    Parsed (.expr .primary (.cond e b none)) (i :: l :: (ts ++ r :: us)) := by
  apply parsed_of_operand
  intro c c' hread helse
  have hrest := hread.tail
  obtain ⟨c₁, hts, hrest₁⟩ := hrest.tail.split
  have hparen : c₁.peek.kind = .rparen := by rw [hrest₁.peek_eq, hr]
  apply Yields.succ
  apply Yields.peek
  rw [hread.peek_eq]
  simp only [hi]
  apply Yields.advance
  apply Yields.expect (by simp [hrest.peek_eq, hl])
  apply (expression_before h hts hparen (by decide)).bind
  apply Yields.expect (by simp [hparen])
  apply (hb _ _ hrest₁.tail).bind
  exact .pass helse .pure

theorem condElse_parsed {i l r w : Token} {b b' : Block} {vs : List Token} (hi : i.kind = .ifWord)
    (hl : l.kind = .lparen) (h : Parsed (.expr .equality e) ts) (hr : r.kind = .rparen)
    (hb : Parsed (.block b) us) (hw : w.kind = .elseWord) (hb' : Parsed (.block b') vs) :
    Parsed (.expr .primary (.cond e b (some b'))) (i :: l :: (ts ++ r :: (us ++ w :: vs))) := by
  apply parsed_of_operand
  intro c c' hread _
  have hrest := hread.tail
  obtain ⟨c₁, hts, hrest₁⟩ := hrest.tail.split
  obtain ⟨c₂, hus, hrest₂⟩ := hrest₁.tail.split
  have hparen : c₁.peek.kind = .rparen := by rw [hrest₁.peek_eq, hr]
  apply Yields.succ
  apply Yields.peek
  rw [hread.peek_eq]
  simp only [hi]
  apply Yields.advance
  apply Yields.expect (by simp [hrest.peek_eq, hl])
  apply (expression_before h hts hparen (by decide)).bind
  apply Yields.expect (by simp [hparen])
  apply (hb _ _ hus).bind
  apply Yields.accept (by rw [hrest₂.peek_eq, hw])
  exact (hb' _ _ hrest₂.tail).bind .pure

theorem fn_parsed {f l r : Token} {xs : List String} {b : Block} (hf : f.kind = .fnWord)
    (hl : l.kind = .lparen) (h : Parsed (.parameters xs) ts) (hr : r.kind = .rparen)
    (hb : Parsed (.block b) us) :
    Parsed (.expr .primary (.fn xs b)) (f :: l :: (ts ++ r :: us)) := by
  apply parsed_of_operand
  intro c c' hread _
  rw [← List.cons_append] at hread
  obtain ⟨c₁, hts, hrest⟩ := hread.tail.split
  apply Yields.succ
  apply Yields.peek
  rw [hread.peek_eq]
  simp only [hf]
  apply Yields.advance
  apply (h l _ _ hl hts (by rw [hrest.peek_eq, hr])).bind
  exact (hb _ _ hrest.tail).bind .pure

theorem call_parsed {l r : Token} {es : List Expr} (h : Parsed (.expr .call e) ts)
    (hl : l.kind = .lparen) (hes : Parsed (.arguments es) us) (hr : r.kind = .rparen) :
    Parsed (.expr .call (.call e es)) (ts ++ l :: (us ++ [r])) := by
  intro c c' hread _ _ level hcall hlevel result d hd
  obtain ⟨c₁, hts, hrest⟩ := hread.split
  obtain ⟨c₂, hus, hend⟩ := hrest.tail.split
  have hparen : c₁.peek.kind = .lparen := by rw [hrest.peek_eq, hl]
  apply h c c₁ hts (by rw [hparen]; decide) (Precedence.rank_le_call _) level hcall hlevel
  apply Yields.succ
  apply Yields.peek
  rw [hparen]
  simp only [if_pos (Precedence.lt_call hcall)]
  apply Yields.advance
  apply (hes _ _ hus (by rw [hend.peek_eq, hr])).bind
  rw [← hend.eq_advance]
  exact hd

theorem unary_parsed {op : UnaryOp} (ht : t.kind = op.token) (h : Parsed (.expr .negation e) ts) :
    Parsed (.expr .negation (.unary op e)) (t :: ts) := by
  intro c c' hread helse hstop level hcall hlevel result d hd
  have hend : ¬ Precedence.unary < Precedence.ofKind c'.peek.kind := by
    rw [Precedence.lt_iff]
    exact Nat.not_lt.2 hstop
  have hinner :=
    h _ _ hread.tail helse hstop .unary (by decide) (by decide) e c' (continuation_stop hend)
  apply expression_of_operand _ hd
  apply Yields.succ
  apply Yields.peek
  rw [hread.peek_eq]
  cases op
  · have hk : t.kind = .minus := ht
    simp only [hk]
    exact .advance (hinner.bind .pure)
  · have hk : t.kind = .bang := ht
    simp only [hk]
    exact .advance (hinner.bind .pure)

theorem binary_parsed {op : BinaryOp} {τ : Stratum} {e' : Expr}
    (h : Parsed (.expr op.stratum e) ts) (ht : t.kind = op.token) (hτ : op.stratum < τ)
    (h' : Parsed (.expr τ e') us) :
    Parsed (.expr op.stratum (.binary op e e')) (ts ++ t :: us) := by
  intro c c' hread helse hstop level hcall hlevel result d hd
  obtain ⟨c₁, hts, hrest⟩ := hread.split
  have hk : c₁.peek.kind = op.token := by rw [hrest.peek_eq, ht]
  have hrank := Precedence.rank_ofKind_token op
  have hlt := Stratum.lt_iff.1 hτ
  have helse₁ : c₁.peek.kind ≠ .elseWord := by
    rw [hk]
    cases op <;> decide
  apply h c c₁ hts helse₁ (by rw [hk]; omega) level hcall hlevel
  apply Yields.succ
  apply Yields.peek
  rw [hk, BinaryOp.ofKind?_token]
  -- The loop takes the operator, since it binds tighter than the level.
  simp only [if_pos (Precedence.lt_of_above_le hlevel)]
  apply Yields.advance
  -- The right operand is read at the level of the operator, where its own loop stops.
  have hright : Yields (expression · (Precedence.ofKind op.token)) c₁.advance e' c' := by
    have habove := (Precedence.ofKind op.token).above_le_succ
    apply h' _ _ hrest.tail helse (by omega) _ (by cases op <;> decide) (by omega)
    apply continuation_stop
    rw [Precedence.lt_iff]
    omega
  exact hright.bind hd

theorem tighter_parsed {σ τ : Stratum} (hστ : σ < τ) (h : Parsed (.expr τ e) ts) :
    Parsed (.expr σ e) ts := by
  intro c c' hread helse hstop level hcall hlevel
  have hlt := Stratum.lt_iff.1 hστ
  exact h c c' hread helse (by omega) level hcall (by omega)

theorem noParameters_parsed : Parsed (.parameters []) [] := by
  intro l c c' hl hread hend
  rw [hread.eq_advance] at hend ⊢
  apply Yields.expect (by simp [hread.peek_eq, hl])
  exact .accept hend .pure

theorem someParameters_parsed {xs : List String} (hd : Derives (.moreParameters xs) ts)
    (h : Parsed (.moreParameters xs) ts) : Parsed (.parameters xs) ts := by
  intro l c c' hl hread hend
  obtain ⟨t, us, rfl, ht⟩ := hd.begins
  have hts := hread.tail
  apply Yields.expect (by simp [hread.peek_eq, hl])
  apply Yields.pass (by simp [hts.peek_eq, ht])
  exact h _ _ hts hend

theorem lastParameter_parsed (ht : t.kind = .ident) : Parsed (.moreParameters [t.literal]) [t] := by
  intro c c' hread hend
  rw [hread.eq_advance] at hend ⊢
  apply Yields.succ
  apply Yields.expect (by simp [hread.peek_eq, ht])
  apply Yields.expect (by simp [hend])
  rw [hend, hread.peek_eq]
  exact .pure

theorem nextParameter_parsed {s : Token} {xs : List String} (ht : t.kind = .ident)
    (hs : s.kind = .comma) (h : Parsed (.moreParameters xs) ts) :
    Parsed (.moreParameters (t.literal :: xs)) (t :: s :: ts) := by
  intro c c' hread hend
  have hrest := hread.tail
  have hcomma : c.advance.peek.kind = .comma := by rw [hrest.peek_eq, hs]
  apply Yields.succ
  apply Yields.expect (by simp [hread.peek_eq, ht])
  apply Yields.expect (by simp [hcomma])
  rw [hread.peek_eq]
  simp only [if_pos hcomma]
  exact (h _ _ hrest.tail hend).bind .pure

theorem noArguments_parsed : Parsed (.arguments []) [] := by
  intro c c' hread hend
  rw [← hread.eq] at hend ⊢
  apply Yields.succ
  exact .accept hend .pure

theorem someArguments_parsed {es : List Expr} (hd : Derives (.moreArguments es) ts)
    (h : Parsed (.moreArguments es) ts) : Parsed (.arguments es) ts := by
  intro c c' hread hend
  obtain ⟨t, us, rfl, ht⟩ := hd.begins
  apply Yields.succ
  apply Yields.pass
  · rw [hread.peek_eq]
    rintro hk
    rw [hk] at ht
    exact absurd ht (by decide)
  · exact h _ _ hread hend

theorem lastArgument_parsed (h : Parsed (.expr .equality e) ts) :
    Parsed (.moreArguments [e]) ts := by
  intro c c' hread hend
  apply Yields.succ
  apply (expression_before h hread hend (by decide)).bind
  apply Yields.expect (by simp [hend])
  rw [hend]
  exact .pure

theorem nextArgument_parsed {es : List Expr} (h : Parsed (.expr .equality e) ts)
    (ht : t.kind = .comma) (hes : Parsed (.moreArguments es) us) :
    Parsed (.moreArguments (e :: es)) (ts ++ t :: us) := by
  intro c c' hread hend
  obtain ⟨c₁, hts, hrest⟩ := hread.split
  have hcomma : c₁.peek.kind = .comma := by rw [hrest.peek_eq, ht]
  apply Yields.succ
  apply (expression_before h hts hcomma (by decide)).bind
  apply Yields.expect (by simp [hcomma])
  simp only [if_pos hcomma]
  exact (hes _ _ hrest.tail hend).bind .pure

theorem block_parsed {l : Token} {b : Block} (hl : l.kind = .lbrace)
    (hb : Parsed (.statements b) ts) (ht : t.kind = .rbrace) :
    Parsed (.block b) (l :: (ts ++ [t])) := by
  intro c c' hread
  obtain ⟨c₁, hts, hend⟩ := hread.tail.split
  have hbrace : c₁.peek.kind = .rbrace := by rw [hend.peek_eq, ht]
  apply Yields.succ
  apply Yields.expect (by simp [hread.peek_eq, hl])
  apply (hb [.rbrace, .eof] _ _ hts (List.Subset.refl _) (by simp [hbrace])).bind
  apply Yields.expect (by simp [hbrace])
  rw [hend.eq_advance]
  exact .pure

theorem bind_parsed {w x a : Token} {next : Option Token} (hw : w.kind = .letWord)
    (hx : x.kind = .ident) (ha : a.kind = .assign) (h : Parsed (.expr .equality e) ts)
    (ht : t.kind = .semicolon) :
    Parsed (.statement next (.bind x.literal e)) (w :: x :: a :: (ts ++ [t])) := by
  intro c c' hread _ _
  have hname := hread.tail
  have hassign := hname.tail
  obtain ⟨c₁, hts, hend⟩ := hassign.tail.split
  have hsemi : c₁.peek.kind = .semicolon := by rw [hend.peek_eq, ht]
  apply Yields.succ
  apply Yields.peek
  rw [hread.peek_eq]
  simp only [hw]
  apply Yields.advance
  apply Yields.expect (by simp [hname.peek_eq, hx])
  apply Yields.expect (by simp [hassign.peek_eq, ha])
  apply (expression_before h hts hsemi (by decide)).bind
  apply Yields.expect (by simp [hsemi])
  rw [hname.peek_eq, hend.eq_advance]
  exact .pure

theorem ret_parsed {w : Token} {next : Option Token} (hw : w.kind = .returnWord)
    (h : Parsed (.expr .equality e) ts) (ht : t.kind = .semicolon) :
    Parsed (.statement next (.ret e)) (w :: (ts ++ [t])) := by
  intro c c' hread _ _
  obtain ⟨c₁, hts, hend⟩ := hread.tail.split
  have hsemi : c₁.peek.kind = .semicolon := by rw [hend.peek_eq, ht]
  apply Yields.succ
  apply Yields.peek
  rw [hread.peek_eq]
  simp only [hw]
  apply Yields.advance
  apply (expression_before h hts hsemi (by decide)).bind
  apply Yields.expect (by simp [hsemi])
  rw [hend.eq_advance]
  exact .pure

/-- A statement that begins as an expression does is that expression, and a semicolon if any. -/
theorem statement_of_expression (hd : Derives (.expr .equality e) ts) (hts : c.Reads ts c')
    (h : Yields (fun n => do
      let value ← expression n .lowest
      let _ ← accept .semicolon
      return Stmt.expr value) c (.expr e) d) : Yields statement c (.expr e) d := by
  obtain ⟨t, us, rfl, ht⟩ := hd.begins
  apply Yields.succ
  refine .congr (fun n => ?_) h
  rw [statement, runAt_peek_bind, hts.peek_eq]
  split
  · next hk => exact absurd (hk ▸ ht) (by decide)
  · next hk => exact absurd (hk ▸ ht) (by decide)
  · rfl

theorem ended_parsed {next : Option Token} (hd : Derives (.expr .equality e) ts)
    (h : Parsed (.expr .equality e) ts) (ht : t.kind = .semicolon) :
    Parsed (.statement next (.expr e)) (ts ++ [t]) := by
  intro c c' hread _ _
  obtain ⟨c₁, hts, hend⟩ := hread.split
  have hsemi : c₁.peek.kind = .semicolon := by rw [hend.peek_eq, ht]
  apply statement_of_expression hd hts
  apply (expression_before h hts hsemi (by decide)).bind
  apply Yields.accept hsemi
  rw [hend.eq_advance]
  exact .pure

theorem bare_parsed {next : Option Token} (hd : Derives (.expr .equality e) ts)
    (h : Parsed (.expr .equality e) ts) (hnext : ∀ t ∈ next, t.kind ∉ Token.Kind.continuing) :
    Parsed (.statement next (.expr e)) ts := by
  intro c c' hread helse hat
  have hk : c'.peek.kind ∉ Token.Kind.continuing := by
    rcases hat with rfl | ⟨-, hclose⟩
    · exact hnext _ rfl
    · intro hmem
      simp only [List.mem_cons, List.not_mem_nil, or_false] at hclose
      rcases hclose with hclose | hclose <;> rw [hclose] at hmem <;>
        exact absurd hmem (by decide)
  rw [Token.Kind.mem_continuing, not_or] at hk
  apply statement_of_expression hd hread
  apply (expression_before h hread rfl ⟨hk.1, helse⟩).bind
  exact .pass hk.2 .pure

theorem noStatements_parsed : Parsed (.statements []) [] := by
  intro closers c c' hread _ hend
  rw [← hread.eq] at hend ⊢
  apply Yields.succ
  apply Yields.peek
  simp only [if_pos hend]
  exact .pure

theorem nextStatement_parsed {s : Stmt} {ss : List Stmt}
    (hd : Derives (.statement us.head? s) ts) (h : Parsed (.statement us.head? s) ts)
    (hds : Derives (.statements ss) us) (hs : Parsed (.statements ss) us) :
    Parsed (.statements (s :: ss)) (ts ++ us) := by
  intro closers c c' hread hclosers hend
  obtain ⟨c₁, hts, hus⟩ := hread.split
  have hclosed {k : Kind} (hk : k ∈ closers) : k = .rbrace ∨ k = .eof := by
    simpa using hclosers hk
  -- The statement is followed by a token that begins one, or by a closing token.
  have hat : c₁.peek.kind ≠ .elseWord ∧
      (us.head? = some c₁.peek ∨ us.head? = none ∧ c₁.peek.kind ∈ [.rbrace, .eof]) := by
    cases us with
    | nil =>
      rw [← hus.eq] at hend
      rcases hclosed hend with hk | hk <;> simp [hk]
    | cons u us =>
      have hu := hds.begins u rfl
      rw [hus.peek_eq]
      exact ⟨fun hk => absurd (hk ▸ hu) (by decide), .inl rfl⟩
  have hopen : c.peek.kind ∉ closers := by
    obtain ⟨t, rest, rfl, ht⟩ := hd.begins
    rw [hts.peek_eq]
    intro hmem
    rcases hclosed hmem with hk | hk <;> rw [hk] at ht <;> exact absurd ht (by decide)
  apply Yields.succ
  apply Yields.peek
  simp only [if_neg hopen]
  apply (h _ _ hts hat.1 hat.2).bind
  exact (hs closers _ _ hus hclosers hend).bind .pure

end Rules

theorem parsed {φ : Phrase} {ts : List Token} (h : Derives φ ts) : Parsed φ ts := by
  induction h with
  | ident ht => exact ident_parsed ht
  | int ht hn => exact int_parsed ht hn
  | str ht => exact str_parsed ht
  | trueWord ht => exact bool_parsed ht
  | falseWord ht => exact bool_parsed ht
  | group hl _ hr ih => exact group_parsed hl ih hr
  | cond hi hl _ hr _ ih ihb => exact cond_parsed hi hl ih hr ihb
  | condElse hi hl _ hr _ hw _ ih ihb ihc => exact condElse_parsed hi hl ih hr ihb hw ihc
  | fn hf hl _ hr _ ih ihb => exact fn_parsed hf hl ih hr ihb
  | call _ hl _ hr ih ihs => exact call_parsed ih hl ihs hr
  | unary ht _ ih => exact unary_parsed ht ih
  | binary _ ht hτ _ ih ih' => exact binary_parsed ih ht hτ ih'
  | tighter hστ _ ih => exact tighter_parsed hστ ih
  | noParameters => exact noParameters_parsed
  | someParameters hd ih => exact someParameters_parsed hd ih
  | lastParameter ht => exact lastParameter_parsed ht
  | nextParameter ht hs _ ih => exact nextParameter_parsed ht hs ih
  | noArguments => exact noArguments_parsed
  | someArguments hd ih => exact someArguments_parsed hd ih
  | lastArgument _ ih => exact lastArgument_parsed ih
  | nextArgument _ hs _ ih ihs => exact nextArgument_parsed ih hs ihs
  | block hl _ hr ih => exact block_parsed hl ih hr
  | bind hw hx ha _ ht ih => exact bind_parsed hw hx ha ih ht
  | ret hw _ ht ih => exact ret_parsed hw ih ht
  | ended hd ht ih => exact ended_parsed hd ih ht
  | bare hd hnext ih => exact bare_parsed hd ih hnext
  | noStatements => exact noStatements_parsed
  | nextStatement hd hds ih ihs => exact nextStatement_parsed hd ih hds ihs

end Monkey.Parser

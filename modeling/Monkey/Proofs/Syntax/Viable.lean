import Monkey.Proofs.Syntax.Levels

/-! # Viable prefixes

A list of tokens is viable for a kind of phrase if it can be completed to such a
phrase. Inside each construct the tokens read so far are viable: what is missing
of the construct can always be supplied, and every expression, block or
list inside it can be completed first.
-/

namespace Monkey

open Token

variable {α : Type}

/-- Whether `ts` is the beginning of a phrase, one of the family `φ`. -/
def Viable (φ : α → Phrase) (ts : List Token) : Prop :=
  ∃ a us, Derives (φ a) (ts ++ us)

/-- A token of a kind, for completions. -/
def Token.ofKind (k : Kind) : Token :=
  ⟨k, "", .start⟩

theorem Derives.viable {φ : α → Phrase} {a : α} {ts : List Token} (h : Derives (φ a) ts) :
    Viable φ ts :=
  ⟨a, [], by simpa using h⟩

namespace Viable

variable {φ : α → Phrase} {σ τ : Stratum} {ts us : List Token} {e : Expr} {b : Block}
  {f i l r s t w x a : Token}

theorem of_append (h : Viable φ (ts ++ us)) : Viable φ ts := by
  obtain ⟨a, vs, hd⟩ := h
  exact ⟨a, us ++ vs, by simpa using hd⟩

theorem weaken (h : Viable (.expr τ) ts) (hle : σ.rank ≤ τ.rank) : Viable (.expr σ) ts := by
  obtain ⟨e, us, hd⟩ := h
  exact ⟨e, us, hd.weaken hle⟩

theorem expr_nil : Viable (.expr σ) [] :=
  ⟨_, [ofKind .ident], (Derives.ident rfl).weaken (by cases σ <;> decide)⟩

theorem block_nil : Viable .block [] :=
  ⟨[], [ofKind .lbrace, ofKind .rbrace], .block rfl .noStatements rfl⟩

theorem group (hl : l.kind = .lparen) (h : Viable (.expr .equality) ts) :
    Viable (.expr .primary) (l :: ts) := by
  obtain ⟨e, us, hd⟩ := h
  exact ⟨e, us ++ [ofKind .rparen], by simpa using hd.group hl rfl⟩

theorem unary {op : UnaryOp} (ht : t.kind = op.token) (h : Viable (.expr .negation) ts) :
    Viable (.expr .negation) (t :: ts) := by
  obtain ⟨e, us, hd⟩ := h
  exact ⟨.unary op e, us, by simpa using Derives.unary ht hd⟩

theorem binary {op : BinaryOp} (hd : Derives (.expr op.stratum e) us) (ht : t.kind = op.token)
    (hτ : op.stratum < τ) (h : Viable (.expr τ) ts) :
    Viable (.expr op.stratum) (us ++ t :: ts) := by
  obtain ⟨e', vs, hd'⟩ := h
  exact ⟨.binary op e e', vs, by simpa using hd.binary ht hτ hd'⟩

theorem call (hd : Derives (.expr .call e) us) (hl : l.kind = .lparen)
    (h : Viable .arguments ts) : Viable (.expr .call) (us ++ l :: ts) := by
  obtain ⟨es, vs, hes⟩ := h
  exact ⟨.call e es, vs ++ [ofKind .rparen], by simpa using hd.call hl hes rfl⟩

theorem fn_body {xs : List String} (hf : f.kind = .fnWord) (hl : l.kind = .lparen)
    (hxs : Derives (.parameters xs) us) (hr : r.kind = .rparen) (h : Viable .block ts) :
    Viable (.expr .primary) (f :: l :: (us ++ r :: ts)) := by
  obtain ⟨b, vs, hb⟩ := h
  exact ⟨.fn xs b, vs, by simpa using Derives.fn hf hl hxs hr hb⟩

theorem fn_parameters (hf : f.kind = .fnWord) (hl : l.kind = .lparen)
    (h : Viable .parameters ts) : Viable (.expr .primary) (f :: l :: ts) := by
  obtain ⟨xs, us, hxs⟩ := h
  have hbody := fn_body hf hl hxs (r := ofKind .rparen) rfl block_nil
  rw [List.append_assoc] at hbody
  exact hbody.of_append

theorem cond_consequence (hi : i.kind = .ifWord) (hl : l.kind = .lparen)
    (hd : Derives (.expr .equality e) us) (hr : r.kind = .rparen) (h : Viable .block ts) :
    Viable (.expr .primary) (i :: l :: (us ++ r :: ts)) := by
  obtain ⟨b, vs, hb⟩ := h
  exact ⟨.cond e b none, vs, by simpa using hd.cond hi hl hr hb⟩

theorem cond_condition (hi : i.kind = .ifWord) (hl : l.kind = .lparen)
    (h : Viable (.expr .equality) ts) : Viable (.expr .primary) (i :: l :: ts) := by
  obtain ⟨e, us, hd⟩ := h
  have hrest := cond_consequence hi hl hd (r := ofKind .rparen) rfl block_nil
  rw [List.append_assoc] at hrest
  exact hrest.of_append

theorem cond_alternative {vs : List Token} (hi : i.kind = .ifWord) (hl : l.kind = .lparen)
    (hd : Derives (.expr .equality e) us) (hr : r.kind = .rparen) (hb : Derives (.block b) vs)
    (hw : w.kind = .elseWord) (h : Viable .block ts) :
    Viable (.expr .primary) (i :: l :: (us ++ r :: (vs ++ w :: ts))) := by
  obtain ⟨c, ws, hc⟩ := h
  exact ⟨.cond e b (some c), ws, by simpa using hd.condElse hi hl hr hb hw hc⟩

theorem parameters (h : Viable .moreParameters ts) : Viable .parameters ts := by
  obtain ⟨xs, us, hxs⟩ := h
  exact ⟨xs, us, .someParameters hxs⟩

theorem moreParameters_nil : Viable .moreParameters [] :=
  ⟨_, [ofKind .ident], .lastParameter rfl⟩

theorem nextParameter (ht : t.kind = .ident) (hs : s.kind = .comma)
    (h : Viable .moreParameters ts) : Viable .moreParameters (t :: s :: ts) := by
  obtain ⟨xs, us, hxs⟩ := h
  exact ⟨t.literal :: xs, us, .nextParameter ht hs hxs⟩

theorem arguments (h : Viable .moreArguments ts) : Viable .arguments ts := by
  obtain ⟨es, us, hes⟩ := h
  exact ⟨es, us, .someArguments hes⟩

theorem lastArgument (h : Viable (.expr .equality) ts) : Viable .moreArguments ts := by
  obtain ⟨e, us, hd⟩ := h
  exact ⟨[e], us, .lastArgument hd⟩

theorem nextArgument (hd : Derives (.expr .equality e) us) (hs : s.kind = .comma)
    (h : Viable .moreArguments ts) : Viable .moreArguments (us ++ s :: ts) := by
  obtain ⟨es, vs, hes⟩ := h
  exact ⟨e :: es, vs, by simpa using hd.nextArgument hs hes⟩

theorem block (hl : l.kind = .lbrace) (h : Viable .statements ts) : Viable .block (l :: ts) := by
  obtain ⟨b, us, hb⟩ := h
  exact ⟨b, us ++ [ofKind .rbrace], by simpa using Derives.block hl hb rfl⟩

theorem bind (hw : w.kind = .letWord) (hx : x.kind = .ident) (ha : a.kind = .assign)
    (h : Viable (.expr .equality) ts) : Viable (.statement none) (w :: x :: a :: ts) := by
  obtain ⟨e, us, hd⟩ := h
  exact ⟨.bind x.literal e, us ++ [ofKind .semicolon], by simpa using Derives.bind hw hx ha hd rfl⟩

theorem ret (hw : w.kind = .returnWord) (h : Viable (.expr .equality) ts) :
    Viable (.statement none) (w :: ts) := by
  obtain ⟨e, us, hd⟩ := h
  exact ⟨.ret e, us ++ [ofKind .semicolon], by simpa using Derives.ret hw hd rfl⟩

theorem bare (h : Viable (.expr .equality) ts) : Viable (.statement none) ts := by
  obtain ⟨e, us, hd⟩ := h
  exact ⟨.expr e, us, hd.bare (by simp)⟩

end Viable

end Monkey

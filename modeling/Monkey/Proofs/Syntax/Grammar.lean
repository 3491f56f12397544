import Monkey.Program.Precedence
import Monkey.Text.Quoted
import Monkey.Token.Basic

/-! # The grammar of programs

`Derives φ ts` says that the tokens `ts` spell the phrase `φ`, a part of a
program together with its tree. Expressions are stratified: each binary operator
has a stratum, its left operand is of the same stratum and its right operand of
a tighter one. A statement that is a bare expression depends on the token after
it, which must not continue the expression.
-/

namespace Monkey

/-- The strata of expressions, from the loosest to the tightest. -/
inductive Stratum
  | equality
  | comparison
  | sum
  | product
  | negation
  | call
  | primary
  deriving DecidableEq, Repr

namespace Stratum

/-- The place of a stratum in the order, from 1 for the loosest. -/
def rank : Stratum → Nat
  | equality => 1
  | comparison => 2
  | sum => 3
  | product => 4
  | negation => 5
  | call => 6
  | primary => 7

instance : LT Stratum where
  lt σ τ := σ.rank < τ.rank

instance (σ τ : Stratum) : Decidable (σ < τ) :=
  inferInstanceAs (Decidable (σ.rank < τ.rank))

theorem lt_iff {σ τ : Stratum} : σ < τ ↔ σ.rank < τ.rank := Iff.rfl

end Stratum

/-- The token of an operator on one operand. -/
def UnaryOp.token : UnaryOp → Token.Kind
  | neg => .minus
  | not => .bang

/-- The token of an operator on two operands. -/
def BinaryOp.token : BinaryOp → Token.Kind
  | add => .plus
  | sub => .minus
  | mul => .asterisk
  | div => .slash
  | lt => .lt
  | gt => .gt
  | eq => .eq
  | notEq => .notEq

/-- The stratum of the expressions that an operator forms. -/
def BinaryOp.stratum : BinaryOp → Stratum
  | eq | notEq => .equality
  | lt | gt => .comparison
  | add | sub => .sum
  | mul | div => .product

/-- The tokens that go on with an expression or end its statement. -/
def Token.Kind.continuing : List Token.Kind :=
  [.plus, .minus, .asterisk, .slash, .lt, .gt, .eq, .notEq, .lparen, .semicolon]

/-- A part of a program with its tree. A statement stands right before the token `next`, if any. -/
inductive Phrase
  | expr (σ : Stratum) (e : Expr)
  | parameters (xs : List String)
  | moreParameters (xs : List String)
  | arguments (es : List Expr)
  | moreArguments (es : List Expr)
  | block (b : Block)
  | statement (next : Option Token) (s : Stmt)
  | statements (ss : List Stmt)

/-- The tokens that spell a phrase. -/
inductive Derives : Phrase → List Token → Prop
  | ident {t : Token} : t.kind = .ident → Derives (.expr .primary (.ident t.literal)) [t]
  | int {t : Token} {n : Integer} : t.kind = .int → Integer.ofNumeral? t.literal = some n →
      Derives (.expr .primary (.int n)) [t]
  | str {t : Token} : t.kind = .string →
      Derives (.expr .primary (.str (Text.unquote t.literal))) [t]
  | trueWord {t : Token} : t.kind = .trueWord → Derives (.expr .primary (.bool true)) [t]
  | falseWord {t : Token} : t.kind = .falseWord → Derives (.expr .primary (.bool false)) [t]
  | group {l r : Token} {ts : List Token} {e : Expr} : l.kind = .lparen →
      Derives (.expr .equality e) ts → r.kind = .rparen →
      Derives (.expr .primary e) (l :: (ts ++ [r]))
  | cond {i l r : Token} {ts us : List Token} {e : Expr} {b : Block} : i.kind = .ifWord →
      l.kind = .lparen → Derives (.expr .equality e) ts → r.kind = .rparen →
      Derives (.block b) us → Derives (.expr .primary (.cond e b none)) (i :: l :: (ts ++ r :: us))
  | condElse {i l r w : Token} {ts us vs : List Token} {e : Expr} {b c : Block} :
      i.kind = .ifWord → l.kind = .lparen → Derives (.expr .equality e) ts → r.kind = .rparen →
      Derives (.block b) us → w.kind = .elseWord → Derives (.block c) vs →
      Derives (.expr .primary (.cond e b (some c))) (i :: l :: (ts ++ r :: (us ++ w :: vs)))
  | fn {f l r : Token} {ts us : List Token} {xs : List String} {b : Block} : f.kind = .fnWord →
      l.kind = .lparen → Derives (.parameters xs) ts → r.kind = .rparen → Derives (.block b) us →
      Derives (.expr .primary (.fn xs b)) (f :: l :: (ts ++ r :: us))
  | call {l r : Token} {ts us : List Token} {e : Expr} {es : List Expr} :
      Derives (.expr .call e) ts → l.kind = .lparen → Derives (.arguments es) us →
      r.kind = .rparen → Derives (.expr .call (.call e es)) (ts ++ l :: (us ++ [r]))
  | unary {op : UnaryOp} {t : Token} {ts : List Token} {e : Expr} : t.kind = op.token →
      Derives (.expr .negation e) ts → Derives (.expr .negation (.unary op e)) (t :: ts)
  | binary {op : BinaryOp} {τ : Stratum} {t : Token} {ts us : List Token} {d e : Expr} :
      Derives (.expr op.stratum d) ts → t.kind = op.token → op.stratum < τ →
      Derives (.expr τ e) us → Derives (.expr op.stratum (.binary op d e)) (ts ++ t :: us)
  | tighter {σ τ : Stratum} {ts : List Token} {e : Expr} : σ < τ → Derives (.expr τ e) ts →
      Derives (.expr σ e) ts
  | noParameters : Derives (.parameters []) []
  | someParameters {ts : List Token} {xs : List String} : Derives (.moreParameters xs) ts →
      Derives (.parameters xs) ts
  | lastParameter {t : Token} : t.kind = .ident → Derives (.moreParameters [t.literal]) [t]
  | nextParameter {t c : Token} {ts : List Token} {xs : List String} : t.kind = .ident →
      c.kind = .comma → Derives (.moreParameters xs) ts →
      Derives (.moreParameters (t.literal :: xs)) (t :: c :: ts)
  | noArguments : Derives (.arguments []) []
  | someArguments {ts : List Token} {es : List Expr} : Derives (.moreArguments es) ts →
      Derives (.arguments es) ts
  | lastArgument {ts : List Token} {e : Expr} : Derives (.expr .equality e) ts →
      Derives (.moreArguments [e]) ts
  | nextArgument {c : Token} {ts us : List Token} {e : Expr} {es : List Expr} :
      Derives (.expr .equality e) ts → c.kind = .comma → Derives (.moreArguments es) us →
      Derives (.moreArguments (e :: es)) (ts ++ c :: us)
  | block {l r : Token} {ts : List Token} {b : Block} : l.kind = .lbrace →
      Derives (.statements b) ts → r.kind = .rbrace → Derives (.block b) (l :: (ts ++ [r]))
  | bind {w x a z : Token} {next : Option Token} {ts : List Token} {e : Expr} :
      w.kind = .letWord → x.kind = .ident → a.kind = .assign → Derives (.expr .equality e) ts →
      z.kind = .semicolon →
      Derives (.statement next (.bind x.literal e)) (w :: x :: a :: (ts ++ [z]))
  | ret {w z : Token} {next : Option Token} {ts : List Token} {e : Expr} :
      w.kind = .returnWord → Derives (.expr .equality e) ts → z.kind = .semicolon →
      Derives (.statement next (.ret e)) (w :: (ts ++ [z]))
  | ended {z : Token} {next : Option Token} {ts : List Token} {e : Expr} :
      Derives (.expr .equality e) ts → z.kind = .semicolon →
      Derives (.statement next (.expr e)) (ts ++ [z])
  | bare {next : Option Token} {ts : List Token} {e : Expr} : Derives (.expr .equality e) ts →
      (∀ t ∈ next, t.kind ∉ Token.Kind.continuing) → Derives (.statement next (.expr e)) ts
  | noStatements : Derives (.statements []) []
  | nextStatement {ts us : List Token} {s : Stmt} {ss : List Stmt} :
      Derives (.statement us.head? s) ts → Derives (.statements ss) us →
      Derives (.statements (s :: ss)) (ts ++ us)

namespace Derives

theorem singleton {ts : List Token} {s : Stmt} (h : Derives (.statement none s) ts) :
    Derives (.statements [s]) ts := by
  have hs : Derives (.statements [s]) (ts ++ []) := .nextStatement h .noStatements
  rwa [List.append_nil] at hs

/-- The kinds of token that begin an expression. -/
def beginning : List Token.Kind :=
  [.ident, .int, .string, .trueWord, .falseWord, .minus, .bang, .lparen, .ifWord, .fnWord]

/-- What the first token of a phrase can be. -/
def Begins : Phrase → List Token → Prop
  | .expr .., ts | .moreArguments _, ts => ∃ t us, ts = t :: us ∧ t.kind ∈ beginning
  | .statement .., ts =>
    ∃ t us, ts = t :: us ∧ t.kind ∈ .letWord :: .returnWord :: beginning
  | .statements _, ts => ∀ t ∈ ts.head?, t.kind ∈ .letWord :: .returnWord :: beginning
  | .moreParameters _, ts => ∃ t us, ts = t :: us ∧ t.kind = .ident
  | _, _ => True

theorem begins {φ : Phrase} {ts : List Token} (h : Derives φ ts) : Begins φ ts := by
  induction h with
  | ident ht | int ht _ | str ht | trueWord ht | falseWord ht =>
    exact ⟨_, _, rfl, by simp [ht, beginning]⟩
  | group ht _ _ _ | cond ht _ _ _ _ _ _ | condElse ht _ _ _ _ _ _ _ _ _ | fn ht _ _ _ _ _ _ =>
    exact ⟨_, _, rfl, by simp [ht, beginning]⟩
  | @unary op t ts e ht _ _ =>
    refine ⟨t, ts, rfl, ?_⟩
    rw [ht]
    cases op <;> decide
  | call _ _ _ _ ih _ | binary _ _ _ _ ih _ | nextArgument _ _ _ ih _ =>
    obtain ⟨t, us, rfl, ht⟩ := ih
    exact ⟨t, _, rfl, ht⟩
  | tighter _ _ ih | lastArgument _ ih => exact ih
  | lastParameter ht | nextParameter ht _ _ _ => exact ⟨_, _, rfl, ht⟩
  | bind ht _ _ _ _ _ | ret ht _ _ _ => exact ⟨_, _, rfl, by simp [ht]⟩
  | ended _ _ ih =>
    obtain ⟨t, us, rfl, ht⟩ := ih
    exact ⟨t, _, rfl, List.mem_cons_of_mem _ (List.mem_cons_of_mem _ ht)⟩
  | bare _ _ ih =>
    obtain ⟨t, us, rfl, ht⟩ := ih
    exact ⟨t, us, rfl, List.mem_cons_of_mem _ (List.mem_cons_of_mem _ ht)⟩
  | noStatements => simp [Begins]
  | nextStatement _ _ ih _ =>
    obtain ⟨t, us, rfl, ht⟩ := ih
    rintro _ ⟨⟩
    exact ht
  | _ => trivial

theorem kind_ne_eof {φ : Phrase} {ts : List Token} (h : Derives φ ts) :
    ∀ t ∈ ts, t.kind ≠ .eof := by
  induction h with
  | @unary op t ts e ht _ ih =>
    have hop : op.token ≠ .eof := by cases op <;> decide
    simp_all
  | @binary op τ t ts us d e _ ht _ _ ih ih' =>
    have hop : op.token ≠ .eof := by cases op <;> decide
    simp_all [or_imp]
  | _ => simp_all [or_imp]

end Derives

end Monkey

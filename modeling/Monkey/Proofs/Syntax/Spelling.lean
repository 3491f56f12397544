import Monkey.Proofs.Syntax.Levels
import Monkey.Proofs.Syntax.Recognition
import Monkey.Proofs.Token.Decomposition

/-! # Words that spell a phrase

The grammar looks at the kinds and the texts of tokens only, never at their places. So
words spell a phrase if all tokens that have these words derive it. There is one lemma
for each construct of the grammar; a text whose words spell a program parses to it.
-/

namespace Monkey

namespace Word

/-- Words between parentheses. -/
def parens (ws : List Word) : List Word :=
  sign .lparen :: (ws ++ [sign .rparen])

/-- Words between braces. -/
def braces (ws : List Word) : List Word :=
  sign .lbrace :: (ws ++ [sign .rbrace])

/-- Names between commas. -/
def names : List String → List Word
  | [] => []
  | [x] => [name x]
  | x :: y :: xs => name x :: sign .comma :: names (y :: xs)

/-- Whether tokens with these words derive a phrase. -/
def Spells (ws : List Word) (φ : Phrase) : Prop :=
  ∀ ts : List Token, ts.map Token.word = ws → Derives φ ts

end Word

open Word

namespace Token

theorem kind_of_word {t : Token} {w : Word} (h : t.word = w) : t.kind = w.kind :=
  congrArg Word.kind h

theorem literal_of_word {t : Token} {k : Kind} {s : String} (h : t.word = ⟨k, s.toList⟩) :
    t.literal = s :=
  String.toList_inj.1 (congrArg Word.text h)

end Token

namespace Word.Spells

open Token

variable {ws us vs : List Word} {e d : Expr} {es : List Expr} {b c : Block} {s : Stmt}
  {ss : List Stmt} {x : String} {xs : List String} {next : Option Token}

/-- What can be called can stand for a whole expression. -/
theorem whole (h : Spells ws (.expr .call e)) : Spells ws (.expr .equality e) :=
  fun ts hts => (h ts hts).weaken (by decide)

/-! ## Expressions -/

theorem ident (x : String) : Spells [name x] (.expr .call (.ident x)) := by
  intro ts hts
  obtain ⟨t, rfl, ht⟩ := List.map_eq_singleton_iff.1 hts
  rw [← literal_of_word ht]
  exact (Derives.ident (kind_of_word ht)).weaken (by decide)

theorem int {n : Integer} {text : List Char}
    (h : Integer.ofNumeral? (String.ofList text) = some n) :
    Spells [⟨.int, text⟩] (.expr .call (.int n)) := by
  intro ts hts
  obtain ⟨t, rfl, ht⟩ := List.map_eq_singleton_iff.1 hts
  rw [← String.toList_ofList (l := text)] at ht
  rw [← literal_of_word ht] at h
  exact (Derives.int (kind_of_word ht) h).weaken (by decide)

theorem str {s : String} {text : List Char} (h : Text.unquote (String.ofList text) = s) :
    Spells [⟨.string, text⟩] (.expr .call (.str s)) := by
  intro ts hts
  obtain ⟨t, rfl, ht⟩ := List.map_eq_singleton_iff.1 hts
  rw [← String.toList_ofList (l := text)] at ht
  rw [← h, ← literal_of_word ht]
  exact (Derives.str (kind_of_word ht)).weaken (by decide)

theorem bool (v : Bool) :
    Spells [sign (if v then .trueWord else .falseWord)] (.expr .call (.bool v)) := by
  intro ts hts
  obtain ⟨t, rfl, ht⟩ := List.map_eq_singleton_iff.1 hts
  cases v
  · exact (Derives.falseWord (kind_of_word ht)).weaken (by decide)
  · exact (Derives.trueWord (kind_of_word ht)).weaken (by decide)

theorem group (h : Spells ws (.expr .equality e)) : Spells (parens ws) (.expr .call e) := by
  intro ts hts
  simp only [parens, List.map_eq_cons_iff, List.map_eq_append_iff, List.map_eq_nil_iff] at hts
  obtain ⟨l, _, rfl, hl, ts, _, rfl, hws, r, _, rfl, hr, rfl⟩ := hts
  exact (Derives.group (kind_of_word hl) (h ts hws) (kind_of_word hr)).weaken (by decide)

theorem unary (op : UnaryOp) (h : Spells ws (.expr .call e)) :
    Spells (sign op.token :: ws) (.expr .equality (.unary op e)) := by
  intro ts hts
  obtain ⟨t, ts, rfl, ht, hws⟩ := List.map_eq_cons_iff.1 hts
  have hop := Derives.unary (kind_of_word ht) ((h ts hws).weaken (by decide))
  exact hop.weaken (by decide)

theorem binary (op : BinaryOp) (h : Spells ws (.expr .call d)) (h' : Spells us (.expr .call e)) :
    Spells (ws ++ sign op.token :: us) (.expr .equality (.binary op d e)) := by
  have hleft : op.stratum.rank ≤ Stratum.call.rank := by cases op <;> decide
  have hright : op.stratum < Stratum.call := by cases op <;> decide
  intro ts hts
  simp only [List.map_eq_append_iff, List.map_eq_cons_iff] at hts
  obtain ⟨ts, _, rfl, hws, t, us, rfl, ht, hus⟩ := hts
  have hop := Derives.binary ((h ts hws).weaken hleft) (kind_of_word ht) hright (h' us hus)
  exact hop.weaken (by cases op <;> decide)

theorem call (h : Spells ws (.expr .call e)) (h' : Spells us (.arguments es)) :
    Spells (ws ++ parens us) (.expr .call (.call e es)) := by
  intro ts hts
  simp only [parens, List.map_eq_append_iff, List.map_eq_cons_iff, List.map_eq_nil_iff] at hts
  obtain ⟨ts, _, rfl, hws, l, _, rfl, hl, us, _, rfl, hus, r, _, rfl, hr, rfl⟩ := hts
  exact .call (h ts hws) (kind_of_word hl) (h' us hus) (kind_of_word hr)

theorem cond (h : Spells ws (.expr .equality e)) (hb : Spells us (.block b)) :
    Spells (sign .ifWord :: (parens ws ++ us)) (.expr .call (.cond e b none)) := by
  intro ts hts
  simp only [parens, List.cons_append, List.append_assoc, List.nil_append, List.map_eq_cons_iff,
    List.map_eq_append_iff] at hts
  obtain ⟨i, _, rfl, hi, l, _, rfl, hl, ts, _, rfl, hws, r, us, rfl, hr, hus⟩ := hts
  have hcond := Derives.cond (kind_of_word hi) (kind_of_word hl) (h ts hws) (kind_of_word hr)
    (hb us hus)
  exact hcond.weaken (by decide)

theorem condElse (h : Spells ws (.expr .equality e)) (hb : Spells us (.block b))
    (hc : Spells vs (.block c)) :
    Spells (sign .ifWord :: (parens ws ++ us ++ sign .elseWord :: vs))
      (.expr .call (.cond e b (some c))) := by
  intro ts hts
  simp only [parens, List.cons_append, List.append_assoc, List.nil_append, List.map_eq_cons_iff,
    List.map_eq_append_iff] at hts
  obtain ⟨i, _, rfl, hi, l, _, rfl, hl, ts, _, rfl, hws, r, _, rfl, hr, us, _, rfl, hus, w, vs,
    rfl, hw, hvs⟩ := hts
  have hcond := Derives.condElse (kind_of_word hi) (kind_of_word hl) (h ts hws) (kind_of_word hr)
    (hb us hus) (kind_of_word hw) (hc vs hvs)
  exact hcond.weaken (by decide)

theorem fn (h : Spells ws (.parameters xs)) (hb : Spells us (.block b)) :
    Spells (sign .fnWord :: (parens ws ++ us)) (.expr .call (.fn xs b)) := by
  intro ts hts
  simp only [parens, List.cons_append, List.append_assoc, List.nil_append, List.map_eq_cons_iff,
    List.map_eq_append_iff] at hts
  obtain ⟨f, _, rfl, hf, l, _, rfl, hl, ts, _, rfl, hws, r, us, rfl, hr, hus⟩ := hts
  have hfn := Derives.fn (kind_of_word hf) (kind_of_word hl) (h ts hws) (kind_of_word hr)
    (hb us hus)
  exact hfn.weaken (by decide)

/-! ## Parameters and arguments -/

theorem moreParameters (x : String) (xs : List String) :
    Spells (names (x :: xs)) (.moreParameters (x :: xs)) := by
  induction xs generalizing x with
  | nil =>
    intro ts hts
    obtain ⟨t, rfl, ht⟩ := List.map_eq_singleton_iff.1 hts
    rw [← literal_of_word ht]
    exact .lastParameter (kind_of_word ht)
  | cons y xs ih =>
    intro ts hts
    simp only [names, List.map_eq_cons_iff] at hts
    obtain ⟨t, _, rfl, ht, c, us, rfl, hc, hus⟩ := hts
    rw [← literal_of_word ht]
    exact .nextParameter (kind_of_word ht) (kind_of_word hc) (ih y us hus)

theorem parameters (xs : List String) : Spells (names xs) (.parameters xs) := by
  intro ts hts
  cases xs with
  | nil =>
    obtain rfl := List.map_eq_nil_iff.1 hts
    exact .noParameters
  | cons x xs => exact .someParameters (moreParameters x xs ts hts)

theorem noArguments : Spells [] (.arguments []) := by
  intro ts hts
  obtain rfl := List.map_eq_nil_iff.1 hts
  exact .noArguments

theorem lastArgument (h : Spells ws (.expr .call e)) : Spells ws (.arguments [e]) :=
  fun ts hts => .someArguments (.lastArgument (h.whole ts hts))

theorem nextArgument (h : Spells ws (.expr .call e)) (h' : Spells us (.arguments (d :: es))) :
    Spells (ws ++ sign .comma :: us) (.arguments (e :: d :: es)) := by
  intro ts hts
  simp only [List.map_eq_append_iff, List.map_eq_cons_iff] at hts
  obtain ⟨ts, _, rfl, hws, c, us, rfl, hc, hus⟩ := hts
  cases h' us hus with
  | someArguments hmore =>
    exact .someArguments (.nextArgument (h.whole ts hws) (kind_of_word hc) hmore)

/-! ## Statements -/

theorem block (h : Spells ws (.statements b)) : Spells (braces ws) (.block b) := by
  intro ts hts
  simp only [braces, List.map_eq_cons_iff, List.map_eq_append_iff, List.map_eq_nil_iff] at hts
  obtain ⟨l, _, rfl, hl, ts, _, rfl, hws, r, _, rfl, hr, rfl⟩ := hts
  exact .block (kind_of_word hl) (h ts hws) (kind_of_word hr)

theorem bind (x : String) (h : Spells ws (.expr .call e)) :
    Spells (sign .letWord :: name x :: sign .assign :: (ws ++ [sign .semicolon]))
      (.statement next (.bind x e)) := by
  intro ts hts
  simp only [List.map_eq_cons_iff, List.map_eq_append_iff, List.map_eq_nil_iff] at hts
  obtain ⟨w, _, rfl, hw, t, _, rfl, ht, a, _, rfl, ha, ts, _, rfl, hws, z, _, rfl, hz, rfl⟩ := hts
  rw [← literal_of_word ht]
  exact .bind (kind_of_word hw) (kind_of_word ht) (kind_of_word ha)
    (h.whole ts hws) (kind_of_word hz)

theorem ret (h : Spells ws (.expr .call e)) :
    Spells (sign .returnWord :: (ws ++ [sign .semicolon])) (.statement next (.ret e)) := by
  intro ts hts
  simp only [List.map_eq_cons_iff, List.map_eq_append_iff, List.map_eq_nil_iff] at hts
  obtain ⟨w, _, rfl, hw, ts, _, rfl, hws, z, _, rfl, hz, rfl⟩ := hts
  exact .ret (kind_of_word hw) (h.whole ts hws) (kind_of_word hz)

theorem ended (h : Spells ws (.expr .call e)) :
    Spells (ws ++ [sign .semicolon]) (.statement next (.expr e)) := by
  intro ts hts
  simp only [List.map_eq_cons_iff, List.map_eq_append_iff, List.map_eq_nil_iff] at hts
  obtain ⟨ts, _, rfl, hws, z, _, rfl, hz, rfl⟩ := hts
  exact .ended (h.whole ts hws) (kind_of_word hz)

theorem bare (h : Spells ws (.expr .call e))
    (hnext : ∀ t ∈ next, t.kind ∉ Token.Kind.continuing) :
    Spells ws (.statement next (.expr e)) :=
  fun ts hts => .bare (h.whole ts hts) hnext

theorem noStatements : Spells [] (.statements []) := by
  intro ts hts
  obtain rfl := List.map_eq_nil_iff.1 hts
  exact .noStatements

/-- A statement stands before the first word of those after it. -/
theorem nextStatement
    (h : ∀ next : Option Token, next.map Token.word = us.head? → Spells ws (.statement next s))
    (h' : Spells us (.statements ss)) : Spells (ws ++ us) (.statements (s :: ss)) := by
  intro ts hts
  obtain ⟨ts, us, rfl, hws, hus⟩ := List.map_eq_append_iff.1 hts
  refine .nextStatement (h us.head? ?_ ts hws) (h' us hus)
  rw [← hus, List.head?_map]

end Word.Spells

open Piece in
/-- A text parses to the program that its words spell. -/
theorem Program.ofSource_of_spells {source : String} {p : Program} {ps : List Piece}
    (h : Decomposes source.toList ps) (hp : Spells (words ps) (.statements p)) :
    ofSource source = .ok p := by
  have hd := hp (tokensAt .start ps) (map_word_tokensAt .start ps)
  apply ofTokens_of_derives
  rw [tokenize, ← h.texts_eq, tokensFrom_texts h.cut,
    Token.Cursor.takeWhile_append_ne_eof hd.kind_ne_eof]
  simpa [Token.endOfText] using hd

end Monkey

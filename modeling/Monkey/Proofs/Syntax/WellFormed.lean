import Monkey.Proofs.Syntax.Recognition

/-! # Well-formed programs

A program is well formed if the names in it are names that a text can write and the
integers in it are not negative, for a minus sign is an operator. A text spells
well-formed programs only: the lexer has names and unsigned numerals for tokens, and
the names and integers of a phrase are those of the tokens that derive it.
-/

namespace Monkey

/-- The words that are not names. -/
def reservedWords : List String :=
  ["fn", "let", "return", "if", "else", "true", "false"]

/--
Whether a word is a name: an ASCII letter or an underscore, then letters, digits and underscores,
and not a reserved word.
-/
def IsName (x : String) : Prop :=
  (∃ c cs, x.toList = c :: cs ∧ (c.isAlpha ∨ c = '_') ∧ ∀ d ∈ cs, d.isAlphanum ∨ d = '_') ∧
    x ∉ reservedWords

mutual

/-- Whether every name in an expression is a name, and no integer in it is negative. -/
def Expr.WellFormed : Expr → Prop
  | .ident name => IsName name
  | .int value => 0 ≤ value.toInt
  | .str _ | .bool _ => True
  | .unary _ operand => operand.WellFormed
  | .binary _ left right => left.WellFormed ∧ right.WellFormed
  | .cond condition consequence none =>
    condition.WellFormed ∧ Stmt.AllWellFormed consequence
  | .cond condition consequence (some alternative) =>
    condition.WellFormed ∧ Stmt.AllWellFormed consequence ∧ Stmt.AllWellFormed alternative
  | .fn params body => (∀ x ∈ params, IsName x) ∧ Stmt.AllWellFormed body
  | .call callee args => callee.WellFormed ∧ Expr.AllWellFormed args

/-- Whether each of several expressions is well formed. -/
def Expr.AllWellFormed : List Expr → Prop
  | [] => True
  | e :: es => e.WellFormed ∧ Expr.AllWellFormed es

/-- Whether the name and the expression of a statement are well formed. -/
def Stmt.WellFormed : Stmt → Prop
  | .bind name value => IsName name ∧ value.WellFormed
  | .ret value | .expr value => value.WellFormed

/-- Whether each of several statements is well formed. -/
def Stmt.AllWellFormed : List Stmt → Prop
  | [] => True
  | s :: ss => s.WellFormed ∧ Stmt.AllWellFormed ss

end

/-- Whether the trees of a phrase are well formed. -/
def Phrase.WellFormed : Phrase → Prop
  | .expr _ e => e.WellFormed
  | .parameters xs | .moreParameters xs => ∀ x ∈ xs, IsName x
  | .arguments es | .moreArguments es => Expr.AllWellFormed es
  | .block b | .statements b => Stmt.AllWellFormed b
  | .statement _ s => s.WellFormed

/-! ## The tokens of a text -/

/-- Whether a token for a name has a name for its text, and one for an integer has digits. -/
structure Token.Genuine (t : Token) : Prop where
  ident : t.kind = .ident → IsName t.literal
  int : t.kind = .int → ∀ c ∈ t.literal.toList, c.isDigit = true

theorem Token.Kind.keyword?_eq_none_iff {s : String} : keyword? s = none ↔ s ∉ reservedWords := by
  unfold keyword? reservedWords
  split <;> simp_all

namespace Lexer

theorem isWordStart_iff {c : Char} : isWordStart c = true ↔ c.isAlpha ∨ c = '_' := by
  simp [isWordStart]

theorem isWordRest_iff {c : Char} : isWordRest c = true ↔ c.isAlphanum ∨ c = '_' := by
  simp [isWordRest]

/-- A word is an identifier if it is not reserved. -/
theorem wordKind_eq_ident_iff {word : List Char} :
    wordKind word = .ident ↔ String.ofList word ∉ reservedWords := by
  rw [← Token.Kind.keyword?_eq_none_iff, wordKind]
  cases h : Token.Kind.keyword? (String.ofList word) with
  | none => simp
  | some k =>
    have hk := Token.Kind.isKeyword_of_keyword? h
    simp only [Option.getD_some, reduceCtorEq, iff_false]
    rintro rfl
    cases hk

theorem wordKind_ne_int (word : List Char) : wordKind word ≠ .int := by
  unfold wordKind
  cases h : Token.Kind.keyword? (String.ofList word) with
  | none => simp
  | some k =>
    have hk := Token.Kind.isKeyword_of_keyword? h
    rintro rfl
    cases hk

theorem single?_getD (c : Char) :
    (single? c).getD .illegal ≠ .ident ∧ (single? c).getD .illegal ≠ .int := by
  unfold single?
  split <;> simp

theorem genuine_lexeme (c : Char) (cs : List Char) (p : Position) :
    Token.Genuine ⟨(lexeme c cs).kind, String.ofList (lexeme c cs).text, p⟩ := by
  unfold lexeme
  split
  · next hstart =>
    refine ⟨fun hkind => ?_, fun hkind => absurd hkind (wordKind_ne_int _)⟩
    refine ⟨⟨c, cs.takeWhile isWordRest, by simp, isWordStart_iff.1 hstart, fun d hd => ?_⟩,
      wordKind_eq_ident_iff.1 hkind⟩
    exact isWordRest_iff.1 (List.all_eq_true.1 List.all_takeWhile d hd)
  split
  · next hdigit =>
    refine ⟨nofun, fun _ d hd => ?_⟩
    simp only [String.toList_ofList, List.mem_cons] at hd
    obtain rfl | hd := hd
    · exact hdigit
    · exact List.all_eq_true.1 List.all_takeWhile d hd
  split
  · split <;> exact ⟨nofun, nofun⟩
  split
  · exact ⟨nofun, nofun⟩
  · exact ⟨nofun, nofun⟩
  · refine ⟨fun hkind => ?_, fun hkind => ?_⟩
    · exact absurd hkind (single?_getD _).1
    · exact absurd hkind (single?_getD _).2

theorem genuine_tokensFrom (p : Position) (cs : List Char) :
    ∀ t ∈ tokensFrom p cs, t.Genuine := by
  fun_induction tokensFrom p cs with
  | case1 p => simpa using ⟨nofun, nofun⟩
  | case2 p c cs _ ih => exact ih
  | case3 p c cs _ ih =>
    intro t ht
    obtain rfl | ht := List.mem_cons.1 ht
    · exact genuine_lexeme c cs p
    · exact ih t ht

end Lexer

/-- A numeral without a sign is not negative. -/
theorem Integer.nonneg_of_ofNumeral? {text : String} {n : Integer}
    (hdigits : ∀ c ∈ text.toList, c.isDigit = true) (hn : ofNumeral? text = some n) :
    0 ≤ n.toInt := by
  obtain ⟨m, hm, hof⟩ := Option.bind_eq_some_iff.1 hn
  rw [Numeral.read?_of_isDigit hdigits] at hm
  obtain ⟨k, -, rfl⟩ := Option.map_eq_some_iff.1 hm
  rw [ofInt?_eq_some_iff.1 hof]
  exact Int.natCast_nonneg k

/-! ## The phrases they derive -/

namespace Derives

theorem wellFormed {φ : Phrase} {ts : List Token} (h : Derives φ ts) :
    (∀ t ∈ ts, t.Genuine) → φ.WellFormed := by
  induction h with
  | ident hk =>
    intro hts
    exact (hts _ List.mem_cons_self).ident hk
  | int hk hn =>
    intro hts
    exact Integer.nonneg_of_ofNumeral? ((hts _ List.mem_cons_self).int hk) hn
  | lastParameter hk =>
    intro hts x hx
    rw [List.mem_singleton.1 hx]
    exact (hts _ List.mem_cons_self).ident hk
  | nextParameter hk _ _ ih =>
    intro hts x hx
    obtain rfl | hx := List.mem_cons.1 hx
    · exact (hts _ List.mem_cons_self).ident hk
    · refine ih (fun t ht => hts t ?_) x hx
      exact List.mem_cons_of_mem _ (List.mem_cons_of_mem _ ht)
  | bind _ hk _ _ _ ih =>
    intro hts
    refine ⟨(hts _ (by simp)).ident hk, ih fun t ht => hts t ?_⟩
    simp [ht]
  -- The other phrases have no names and integers but those of their parts.
  | _ =>
    simp_all [Phrase.WellFormed, Expr.WellFormed, Expr.AllWellFormed, Stmt.WellFormed,
      Stmt.AllWellFormed, or_imp, forall_and]

end Derives

namespace Program

/-- The program that a text spells is well formed. -/
theorem wellFormed_of_ofSource {source : String} {p : Program} (h : ofSource source = .ok p) :
    Stmt.AllWellFormed p := by
  refine (derives_of_ofTokens h).wellFormed fun t ht => ?_
  exact Lexer.genuine_tokensFrom _ _ t (List.takeWhile_sublist _ |>.mem ht)

end Program

end Monkey

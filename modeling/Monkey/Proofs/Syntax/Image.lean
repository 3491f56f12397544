import Monkey.Proofs.Syntax.Spelling
import Monkey.Proofs.Syntax.Words

/-! # The programs that texts spell

Every well-formed program can be written: operators and calls in parentheses, and a
semicolon after every statement, so that no word depends on those around it. The
words of a phrase derive it wherever they stand, and are read back one by one; so the
texts spell exactly the well-formed programs.
-/

namespace Monkey

open Word

/-! ## Writing programs -/

mutual

/-- The words of an expression. -/
def Expr.words : Expr → List Word
  | .ident x => [name x]
  | .int n => [int n]
  | .str s => [str s]
  | .bool b => [sign (if b then .trueWord else .falseWord)]
  | .unary op operand => parens (sign op.token :: operand.words)
  | .binary op left right => parens (left.words ++ sign op.token :: right.words)
  | .cond condition consequence none =>
    sign .ifWord :: (parens condition.words ++ braces (Stmt.allWords consequence))
  | .cond condition consequence (some alternative) =>
    sign .ifWord :: (parens condition.words ++ braces (Stmt.allWords consequence) ++
      sign .elseWord :: braces (Stmt.allWords alternative))
  | .fn params body => sign .fnWord :: (parens (names params) ++ braces (Stmt.allWords body))
  | .call callee args => parens (callee.words ++ parens (Expr.allWords args))

/-- The words of several expressions, with commas between them. -/
def Expr.allWords : List Expr → List Word
  | [] => []
  | [e] => e.words
  | e :: d :: es => e.words ++ sign .comma :: Expr.allWords (d :: es)

/-- The words of a statement. -/
def Stmt.words : Stmt → List Word
  | .bind x value => sign .letWord :: name x :: sign .assign :: (value.words ++ [sign .semicolon])
  | .ret value => sign .returnWord :: (value.words ++ [sign .semicolon])
  | .expr value => value.words ++ [sign .semicolon]

/-- The words of several statements. -/
def Stmt.allWords : List Stmt → List Word
  | [] => []
  | s :: ss => s.words ++ Stmt.allWords ss

end

/-- A text of a program. -/
def Program.source (p : Program) : String :=
  String.ofList (spaced (Stmt.allWords p))

/-! ## The words are read -/

namespace Word

variable {ws us : List Word}

theorem isRead_parens (h : ∀ w ∈ ws, w.IsRead) : ∀ w ∈ parens ws, w.IsRead := by
  simp only [parens, List.forall_mem_cons, List.forall_mem_append]
  exact ⟨isRead_sign (by decide), h, isRead_sign (by decide), nofun⟩

theorem isRead_braces (h : ∀ w ∈ ws, w.IsRead) : ∀ w ∈ braces ws, w.IsRead := by
  simp only [braces, List.forall_mem_cons, List.forall_mem_append]
  exact ⟨isRead_sign (by decide), h, isRead_sign (by decide), nofun⟩

theorem isRead_names {xs : List String} (h : ∀ x ∈ xs, IsName x) :
    ∀ w ∈ names xs, w.IsRead := by
  fun_induction names xs with
  | case1 => exact nofun
  | case2 x => exact List.forall_mem_singleton.2 (isRead_name (h x List.mem_cons_self))
  | case3 x y xs ih =>
    rw [List.forall_mem_cons] at h
    rw [List.forall_mem_cons, List.forall_mem_cons]
    exact ⟨isRead_name h.1, isRead_sign (by decide), ih h.2⟩

end Word

mutual

theorem Expr.isRead_words (e : Expr) (h : e.WellFormed) : ∀ w ∈ e.words, w.IsRead := by
  match e with
  | .ident _ => exact List.forall_mem_singleton.2 (isRead_name h)
  | .int _ => exact List.forall_mem_singleton.2 (isRead_int h)
  | .str s => exact List.forall_mem_singleton.2 (isRead_str s)
  | .bool v => exact List.forall_mem_singleton.2 (isRead_sign (by cases v <;> decide))
  | .unary op operand =>
    have hop := isRead_sign (k := op.token) (by cases op <;> decide)
    exact isRead_parens (List.forall_mem_cons.2 ⟨hop, operand.isRead_words h⟩)
  | .binary op left right =>
    have hop := isRead_sign (k := op.token) (by cases op <;> decide)
    apply isRead_parens
    rw [List.forall_mem_append, List.forall_mem_cons]
    exact ⟨left.isRead_words h.1, hop, right.isRead_words h.2⟩
  | .cond condition consequence none =>
    simp only [Expr.words, List.forall_mem_cons, List.forall_mem_append]
    exact ⟨isRead_sign (by decide), isRead_parens (condition.isRead_words h.1),
      isRead_braces (Stmt.isRead_allWords consequence h.2)⟩
  | .cond condition consequence (some alternative) =>
    simp only [Expr.words, List.forall_mem_cons, List.forall_mem_append]
    exact ⟨isRead_sign (by decide), ⟨isRead_parens (condition.isRead_words h.1),
      isRead_braces (Stmt.isRead_allWords consequence h.2.1)⟩, isRead_sign (by decide),
      isRead_braces (Stmt.isRead_allWords alternative h.2.2)⟩
  | .fn params body =>
    simp only [Expr.words, List.forall_mem_cons, List.forall_mem_append]
    exact ⟨isRead_sign (by decide), isRead_parens (isRead_names h.1),
      isRead_braces (Stmt.isRead_allWords body h.2)⟩
  | .call callee args =>
    apply isRead_parens
    rw [List.forall_mem_append]
    exact ⟨callee.isRead_words h.1, isRead_parens (Expr.isRead_allWords args h.2)⟩

theorem Expr.isRead_allWords (es : List Expr) (h : Expr.AllWellFormed es) :
    ∀ w ∈ Expr.allWords es, w.IsRead := by
  match es with
  | [] => exact nofun
  | [e] => exact e.isRead_words h.1
  | e :: d :: es =>
    rw [Expr.allWords, List.forall_mem_append, List.forall_mem_cons]
    exact ⟨e.isRead_words h.1, isRead_sign (by decide), Expr.isRead_allWords (d :: es) h.2⟩

theorem Stmt.isRead_words (s : Stmt) (h : s.WellFormed) : ∀ w ∈ s.words, w.IsRead := by
  match s with
  | .bind _ value =>
    simp only [Stmt.words, List.forall_mem_cons, List.forall_mem_append]
    exact ⟨isRead_sign (by decide), isRead_name h.1, isRead_sign (by decide),
      value.isRead_words h.2, isRead_sign (by decide), nofun⟩
  | .ret value =>
    simp only [Stmt.words, List.forall_mem_cons, List.forall_mem_append]
    exact ⟨isRead_sign (by decide), value.isRead_words h, isRead_sign (by decide), nofun⟩
  | .expr value =>
    simp only [Stmt.words, List.forall_mem_cons, List.forall_mem_append]
    exact ⟨value.isRead_words h, isRead_sign (by decide), nofun⟩

theorem Stmt.isRead_allWords (ss : List Stmt) (h : Stmt.AllWellFormed ss) :
    ∀ w ∈ Stmt.allWords ss, w.IsRead := by
  match ss with
  | [] => exact nofun
  | s :: ss =>
    rw [Stmt.allWords, List.forall_mem_append]
    exact ⟨s.isRead_words h.1, Stmt.isRead_allWords ss h.2⟩

end

/-! ## The words spell the program -/

mutual

theorem Expr.spells : ∀ {e : Expr}, e.WellFormed → Spells e.words (.expr .call e)
  | .ident x, _ => .ident x
  | .int _, h => .int (ofNumeral?_int h)
  | .str s, _ => .str (unquote_str s)
  | .bool v, _ => .bool v
  | .unary op _, h => .group (.unary op (Expr.spells h))
  | .binary op _ _, h => .group (.binary op (Expr.spells h.1) (Expr.spells h.2))
  | .cond _ _ none, h => .cond (Expr.spells h.1).whole (Stmt.allSpell h.2).block
  | .cond _ _ (some _), h =>
    .condElse (Expr.spells h.1).whole (Stmt.allSpell h.2.1).block (Stmt.allSpell h.2.2).block
  | .fn params _, h => .fn (.parameters params) (Stmt.allSpell h.2).block
  | .call _ _, h => .group (Spells.whole (.call (Expr.spells h.1) (Expr.allSpell h.2)))

theorem Expr.allSpell :
    ∀ {es : List Expr}, Expr.AllWellFormed es → Spells (Expr.allWords es) (.arguments es)
  | [], _ => .noArguments
  | [_], h => (Expr.spells h.1).lastArgument
  | _ :: _ :: _, h => (Expr.spells h.1).nextArgument (Expr.allSpell h.2)

theorem Stmt.spells :
    ∀ {s : Stmt}, s.WellFormed → ∀ next, Spells s.words (.statement next s)
  | .bind x _, h, _ => .bind x (Expr.spells h.2)
  | .ret _, h, _ => .ret (Expr.spells h)
  | .expr _, h, _ => .ended (Expr.spells h)

theorem Stmt.allSpell :
    ∀ {ss : List Stmt}, Stmt.AllWellFormed ss → Spells (Stmt.allWords ss) (.statements ss)
  | [], _ => .noStatements
  | _ :: _, h => .nextStatement (fun next _ => Stmt.spells h.1 next) (Stmt.allSpell h.2)

end

namespace Program

variable {p : Program}

/-- A well-formed program is read back from its text. -/
theorem ofSource_source (h : Stmt.AllWellFormed p) : ofSource p.source = .ok p := by
  have hread := Stmt.isRead_allWords p h
  have hspells := Stmt.allSpell h
  rw [← Piece.words_ofWords (Stmt.allWords p)] at hspells
  apply ofSource_of_spells _ hspells
  rw [source, String.toList_ofList]
  exact Piece.decomposes_spaced hread

example : source [.ret (.binary .sub (.ident "x") (.str "a\"b"))] =
    "return ( x - \"a\\\"b\" ) ; " := rfl

/--
The programs that texts spell are the well-formed ones: those whose names can be written, and whose
integers are not negative.
-/
theorem exists_ofSource_iff (p : Program) :
    (∃ source, ofSource source = .ok p) ↔ Stmt.AllWellFormed p := by
  constructor
  · rintro ⟨source, h⟩
    exact wellFormed_of_ofSource h
  · intro h
    exact ⟨p.source, ofSource_source h⟩

end Program

end Monkey

import Monkey.Proofs.Syntax.Display
import Monkey.Proofs.Syntax.Spelling

/-! # Rendered programs are read back

A rendered program parses to the program again if it is legible. Three things in a
rendering can be misread: a string with an escape that reading does not resolve, a
condition that has no parentheses of its own, and an expression that begins with a
parenthesis right after a statement without a semicolon, where it looks like a list of
arguments. Where none of these occurs, the words of each construct derive it: operators
and their operands have parentheses, so precedence and associativity play no part.
-/

namespace Monkey

open Word Piece

/-- Whether an expression is the application of an operator. -/
def Expr.IsOperation : Expr → Prop
  | .unary .. | .binary .. => True
  | _ => False

/-- Whether a statement is an expression, and the one after it looks like a list of arguments. -/
def Stmt.RunsInto : Stmt → Stmt → Prop
  | .expr _, .expr next => next.render.toList.head? = some '('
  | _, _ => False

mutual

/-- Whether the strings, the conditions and the blocks in an expression are legible. -/
def Expr.Legible : Expr → Prop
  | .ident _ | .int _ | .bool _ => True
  | .str s => ∀ c ∈ s.toList, Text.Legible c
  | .unary _ operand => operand.Legible
  | .binary _ left right => left.Legible ∧ right.Legible
  | .cond condition consequence none =>
    (condition.IsOperation ∧ condition.Legible) ∧ Stmt.AllLegible consequence
  | .cond condition consequence (some alternative) =>
    (condition.IsOperation ∧ condition.Legible) ∧ Stmt.AllLegible consequence ∧
      Stmt.AllLegible alternative
  | .fn _ body => Stmt.AllLegible body
  | .call callee args => callee.Legible ∧ Expr.AllLegible args

/-- Whether each of several expressions is legible. -/
def Expr.AllLegible : List Expr → Prop
  | [] => True
  | e :: es => e.Legible ∧ Expr.AllLegible es

/-- Whether the expression of a statement is legible. -/
def Stmt.Legible : Stmt → Prop
  | .bind _ value | .ret value | .expr value => value.Legible

/-- Whether each of several statements is legible, and none runs into the next. -/
def Stmt.AllLegible : List Stmt → Prop
  | [] => True
  | s :: ss => s.Legible ∧ (∀ t ∈ ss.head?, ¬s.RunsInto t) ∧ Stmt.AllLegible ss

end

/-! ## The words of a rendering -/

namespace Piece

@[simp] theorem words_space (ps : List Piece) : words (space :: ps) = words ps := rfl

@[simp] theorem words_fixed (k : Token.Kind) (ps : List Piece) :
    words (fixed k :: ps) = sign k :: words ps := rfl

@[simp] theorem words_inBraces (ps : List Piece) : words (inBraces ps) = braces (words ps) := by
  simp [inBraces, braces]

@[simp] theorem words_separated_names (xs : List String) :
    words (separated (xs.map fun x => [token (name x)])) = names xs := by
  fun_induction names xs with
  | case1 => rfl
  | case2 x => rfl
  | case3 x y xs ih => exact congrArg (fun ws => name x :: sign .comma :: ws) ih

end Piece

theorem Stmt.words_allPieces (ss : List Stmt) :
    Piece.words (Stmt.allPieces ss) = Piece.words (Program.pieces ss) := by
  cases ss <;> rfl

/-- What begins an expression does not go on with the one before it, but for a parenthesis. -/
theorem Expr.eq_lparen_of_leading {k : Token.Kind} (h : k ∈ leading)
    (hk : k ∈ Token.Kind.continuing) : k = .lparen := by
  revert k
  decide

theorem Stmt.not_continuing {e : Expr} {t : Stmt} (h : ¬(Stmt.expr e).RunsInto t)
    (ps : List Piece) {u : Token} (hu : some u.word = (Piece.words (t.pieces ++ ps)).head?) :
    u.kind ∉ Token.Kind.continuing := by
  cases t with
  | bind | ret =>
    rw [Token.kind_of_word (Option.some.inj hu)]
    simp [Token.Kind.continuing, sign]
  | expr d =>
    obtain ⟨w, qs, hqs, hw, hparen⟩ := d.exists_pieces
    rw [Stmt.pieces, hqs] at hu
    rw [Token.kind_of_word (Option.some.inj hu)]
    intro hcontinuing
    apply h
    rw [Stmt.RunsInto, ← d.texts_pieces, hqs, hparen (Expr.eq_lparen_of_leading hw hcontinuing)]
    rfl

/-! ## Legible programs are read back -/

mutual

theorem Expr.spells_pieces (e : Expr) (h : e.WellFormed) (hl : e.Legible) :
    Spells (Piece.words e.pieces) (.expr .call e) := by
  match e with
  | .ident x => exact .ident x
  | .int _ => exact .int (ofNumeral?_int h)
  | .str s =>
    apply Spells.str
    rw [String.ofList_toList]
    exact Text.unquote_quote hl
  | .bool v => exact .bool v
  | .unary op operand =>
    have hop := Spells.unary op (operand.spells_pieces h hl)
    simpa [Expr.pieces, parens] using hop.group
  | .binary op left right =>
    have hop := Spells.binary op (left.spells_pieces h.1 hl.1) (right.spells_pieces h.2 hl.2)
    simpa [Expr.pieces, parens] using hop.group
  | .cond condition consequence none =>
    obtain ⟨ws, hws, hcondition⟩ := condition.spells_operation hl.1.1 h.1 hl.1.2
    have hcond := hcondition.cond (Stmt.spells_all consequence h.2 hl.2).block
    simpa [Expr.pieces, hws, Stmt.words_allPieces] using hcond
  | .cond condition consequence (some alternative) =>
    obtain ⟨ws, hws, hcondition⟩ := condition.spells_operation hl.1.1 h.1 hl.1.2
    have hcond := hcondition.condElse (Stmt.spells_all consequence h.2.1 hl.2.1).block
      (Stmt.spells_all alternative h.2.2 hl.2.2).block
    simpa [Expr.pieces, hws, Stmt.words_allPieces] using hcond
  | .fn params body =>
    have hfn := (Spells.parameters params).fn (Stmt.spells_all body h.2 hl).block
    simpa [Expr.pieces, parens, Stmt.words_allPieces] using hfn
  | .call callee args =>
    have hcall := (callee.spells_pieces h.1 hl.1).call (Expr.spells_arguments args h.2 hl.2)
    simpa [Expr.pieces, parens] using hcall

/-- The parentheses around an operation are those that a condition needs. -/
theorem Expr.spells_operation (e : Expr) (hop : e.IsOperation) (h : e.WellFormed)
    (hl : e.Legible) :
    ∃ ws, Piece.words e.pieces = parens ws ∧ Spells ws (.expr .equality e) := by
  match e with
  | .unary op operand =>
    exact ⟨_, by simp [Expr.pieces, parens], .unary op (operand.spells_pieces h hl)⟩
  | .binary op left right =>
    exact ⟨_, by simp [Expr.pieces, parens],
      .binary op (left.spells_pieces h.1 hl.1) (right.spells_pieces h.2 hl.2)⟩

theorem Expr.spells_arguments (es : List Expr) (h : Expr.AllWellFormed es)
    (hl : Expr.AllLegible es) :
    Spells (Piece.words (separated (Expr.allPieces es))) (.arguments es) := by
  match es with
  | [] => exact .noArguments
  | [e] => exact (e.spells_pieces h.1 hl.1).lastArgument
  | e :: d :: es =>
    have hargs := (e.spells_pieces h.1 hl.1).nextArgument (Expr.spells_arguments (d :: es) h.2 hl.2)
    simpa [Expr.allPieces, separated] using hargs

theorem Stmt.spells_pieces (s : Stmt) (h : s.WellFormed) (hl : s.Legible) {next : Option Token}
    (hnext : ∀ e, s = .expr e → ∀ t ∈ next, t.kind ∉ Token.Kind.continuing) :
    Spells (Piece.words s.pieces) (.statement next s) := by
  match s with
  | .bind x value => simpa [Stmt.pieces] using Spells.bind x (value.spells_pieces h.2 hl)
  | .ret value => simpa [Stmt.pieces] using Spells.ret (value.spells_pieces h hl)
  | .expr value => exact .bare (value.spells_pieces h hl) (hnext value rfl)

theorem Stmt.spells_all (ss : List Stmt) (h : Stmt.AllWellFormed ss) (hl : Stmt.AllLegible ss) :
    Spells (Piece.words (Program.pieces ss)) (.statements ss) := by
  match ss with
  | [] => exact .noStatements
  | s :: ss =>
    have hss := Stmt.spells_all ss h.2 hl.2.2
    rw [Program.pieces, words_append, Stmt.words_allPieces]
    refine .nextStatement (fun next hnext => s.spells_pieces h.1 hl.1 ?_) hss
    rintro e rfl t rfl
    cases ss with
    | nil => cases hnext
    | cons d ss => exact Stmt.not_continuing (hl.2.1 d rfl) (Stmt.allPieces ss) hnext

end

namespace Program

variable {p : Program}

/--
A legible program with names that can be written, and without negative integers, is read back from
its rendering: strings, conditions and sequences of expressions are the only things that a
rendering can leave unclear.
-/
theorem ofSource_render (h : Stmt.AllWellFormed p) (hl : Stmt.AllLegible p) :
    ofSource p.render = .ok p :=
  ofSource_of_spells (decomposes_render h) (Stmt.spells_all p h hl)

theorem ofSource_render_nested :
    ∃ p : Program, p.render = "fn(x) \x7b if (!x) \x7b \"\\t\" \x7d \x7d((1 - (-2)))" ∧
      Stmt.AllWellFormed p ∧ Stmt.AllLegible p ∧ ofSource p.render = .ok p := by
  obtain ⟨p, hp⟩ : ∃ p : Program, p = [.expr (.call
      (.fn ["x"] [.expr (.cond (.unary .not (.ident "x")) [.expr (.str "\t")] none)])
      [.binary .sub (.int 1) (.unary .neg (.int 2))])] := ⟨_, rfl⟩
  have hx : IsName "x" := ⟨⟨'x', [], rfl, by decide, nofun⟩, by decide⟩
  have htab : Text.Legible '\t' := .inr ⟨'t', by decide, rfl⟩
  have hwell : Stmt.AllWellFormed p := by
    simp [hp, Stmt.AllWellFormed, Stmt.WellFormed, Expr.WellFormed, Expr.AllWellFormed, hx]
  have hlegible : Stmt.AllLegible p := by
    simp [hp, Stmt.AllLegible, Stmt.Legible, Expr.Legible, Expr.AllLegible, Expr.IsOperation, htab]
  refine ⟨p, ?_, hwell, hlegible, ofSource_render hwell hlegible⟩
  rw [hp]
  rfl

end Program

end Monkey

import Monkey.Program.Render
import Monkey.Proofs.Syntax.Words
import Monkey.Proofs.Text.Escapes
import Monkey.Proofs.Token.Decomposition

/-! # The pieces of a rendered program

A rendered program is made of words and of single spaces. Its pieces are listed here
construct by construct; they make up the rendered text, and they are how the lexical
grammar cuts it, whatever stands around: a word is followed by a space, by a sign or by
what ends it, and what follows a `!` never begins with `=`.
-/

namespace Monkey

open Word

namespace Piece

/-- A single space. -/
def space : Piece := layout ' '

/-- A sign or a reserved word. -/
def fixed (k : Token.Kind) : Piece := token (sign k)

/-- Pieces between commas, each of which is followed by a space. -/
def separated : List (List Piece) → List Piece
  | [] => []
  | [ps] => ps
  | ps :: qs :: pss => ps ++ fixed .comma :: space :: separated (qs :: pss)

/-- Statements between braces. -/
def inBraces (ps : List Piece) : List Piece :=
  fixed .lbrace :: (ps ++ [space, fixed .rbrace])

end Piece

/-- The word of a string, as a program shows it. -/
def Word.quoted (s : String) : Word := ⟨.string, (Text.quote s).toList⟩

open Piece

mutual

/-- The pieces of an expression. -/
def Expr.pieces : Expr → List Piece
  | .ident x => [token (name x)]
  | .int n => [token (int n)]
  | .str s => [token (quoted s)]
  | .bool b => [fixed (if b then .trueWord else .falseWord)]
  | .unary op operand =>
    fixed .lparen :: fixed op.token :: (operand.pieces ++ [fixed .rparen])
  | .binary op left right =>
    fixed .lparen :: (left.pieces ++ space :: fixed op.token :: space ::
      (right.pieces ++ [fixed .rparen]))
  | .cond condition consequence none =>
    fixed .ifWord :: space :: (condition.pieces ++
      space :: inBraces (Stmt.allPieces consequence))
  | .cond condition consequence (some alternative) =>
    fixed .ifWord :: space :: (condition.pieces ++
      space :: (inBraces (Stmt.allPieces consequence) ++
        space :: fixed .elseWord :: space :: inBraces (Stmt.allPieces alternative)))
  | .fn params body =>
    fixed .fnWord :: fixed .lparen :: (separated (params.map fun x => [token (name x)]) ++
      fixed .rparen :: space :: inBraces (Stmt.allPieces body))
  | .call callee args =>
    callee.pieces ++ fixed .lparen :: (separated (Expr.allPieces args) ++ [fixed .rparen])

/-- The pieces of several expressions. -/
def Expr.allPieces : List Expr → List (List Piece)
  | [] => []
  | e :: es => e.pieces :: Expr.allPieces es

/-- The pieces of a statement. -/
def Stmt.pieces : Stmt → List Piece
  | .bind x value =>
    fixed .letWord :: space :: token (name x) :: space :: fixed .assign :: space ::
      (value.pieces ++ [fixed .semicolon])
  | .ret value => fixed .returnWord :: space :: (value.pieces ++ [fixed .semicolon])
  | .expr value => value.pieces

/-- The pieces of several statements, with a space before each. -/
def Stmt.allPieces : List Stmt → List Piece
  | [] => []
  | s :: ss => space :: (s.pieces ++ Stmt.allPieces ss)

end

/-- The pieces of a program. -/
def Program.pieces : Program → List Piece
  | [] => []
  | s :: ss => s.pieces ++ Stmt.allPieces ss

/-! ## They make up the text -/

namespace Piece

@[simp] theorem text_space : space.text = [' '] := rfl

@[simp] theorem text_fixed (k : Token.Kind) : (fixed k).text = k.sign.toList := rfl

@[simp] theorem text_token (w : Word) : (token w).text = w.text := rfl

theorem texts_separated (pss : List (List Piece)) :
    texts (separated pss) = [',', ' '].intercalate (pss.map texts) := by
  fun_induction separated pss with
  | case1 => rfl
  | case2 ps => simp
  | case3 ps qs pss ih => simp [ih, Token.Kind.sign]

theorem texts_commaSeparated {pss : List (List Piece)} {xs : List String}
    (h : pss.map texts = xs.map String.toList) :
    texts (separated pss) = (commaSeparated xs).toList := by
  rw [texts_separated, h, commaSeparated, String.toList_intercalate]
  rfl

theorem texts_inBraces {ps : List Piece} {body : String} (h : texts ps = body.toList) :
    texts (inBraces ps) = (braced body).toList := by
  simp [inBraces, braced, Token.Kind.sign, h]

end Piece

mutual

theorem Expr.texts_pieces : ∀ e : Expr, texts e.pieces = e.render.toList
  | .ident x => by simp [Expr.pieces, Expr.render, Word.name]
  | .int n => by simp [Expr.pieces, Expr.render, Word.int]
  | .str s => by simp [Expr.pieces, Expr.render, quoted]
  | .bool b => by cases b <;> simp [Expr.pieces, Expr.render, Token.Kind.sign]
  | .unary op operand => by
    cases op <;> simp [Expr.pieces, Expr.render, operand.texts_pieces, UnaryOp.token,
      UnaryOp.symbol, Token.Kind.sign]
  | .binary op left right => by
    cases op <;> simp [Expr.pieces, Expr.render, left.texts_pieces, right.texts_pieces,
      BinaryOp.token, BinaryOp.symbol, Token.Kind.sign]
  | .cond condition consequence none => by
    simp [Expr.pieces, Expr.render, condition.texts_pieces,
      texts_inBraces (Stmt.texts_allPieces consequence), Token.Kind.sign]
  | .cond condition consequence (some alternative) => by
    simp [Expr.pieces, Expr.render, condition.texts_pieces,
      texts_inBraces (Stmt.texts_allPieces consequence),
      texts_inBraces (Stmt.texts_allPieces alternative), Token.Kind.sign]
  | .fn params body => by
    have hparams : (params.map fun x => [token (name x)]).map texts =
        params.map String.toList := by
      simp [Function.comp_def, Word.name]
    simp [Expr.pieces, Expr.render, texts_commaSeparated hparams,
      texts_inBraces (Stmt.texts_allPieces body), Token.Kind.sign]
  | .call callee args => by
    simp [Expr.pieces, Expr.render, callee.texts_pieces,
      texts_commaSeparated (Expr.texts_allPieces args), Token.Kind.sign]

theorem Expr.texts_allPieces :
    ∀ es : List Expr, (Expr.allPieces es).map texts = (Expr.renderAll es).map String.toList
  | [] => rfl
  | e :: es => by
    simp [Expr.allPieces, Expr.renderAll, e.texts_pieces, Expr.texts_allPieces es]

theorem Stmt.texts_pieces : ∀ s : Stmt, texts s.pieces = s.render.toList
  | .bind x value => by
    simp [Stmt.pieces, Stmt.render, value.texts_pieces, Token.Kind.sign, Word.name]
  | .ret value => by simp [Stmt.pieces, Stmt.render, value.texts_pieces, Token.Kind.sign]
  | .expr value => value.texts_pieces

theorem Stmt.texts_allPieces :
    ∀ ss : List Stmt, texts (Stmt.allPieces ss) = (Stmt.renderAll ss).toList
  | [] => rfl
  | s :: ss => by
    simp [Stmt.allPieces, Stmt.renderAll, s.texts_pieces, Stmt.texts_allPieces ss]

end

theorem Program.texts_pieces (p : Program) : texts p.pieces = p.render.toList := by
  cases p with
  | nil => rfl
  | cons s ss =>
    induction ss generalizing s with
    | nil => simp [Program.pieces, Program.render, s.texts_pieces, Stmt.allPieces]
    | cons t ts ih =>
      have hrest := ih t
      simp only [Program.pieces, Program.render, Stmt.allPieces, texts_append, texts_cons,
        text_space, List.map_cons, String.toList_intercalate, List.intercalate_cons_cons,
        Stmt.texts_pieces] at hrest ⊢
      rw [hrest]
      simp

/-! ## They are how it is cut -/

/-- The kinds of word that a rendered expression begins with. -/
def Expr.leading : List Token.Kind :=
  [.ident, .int, .string, .trueWord, .falseWord, .lparen, .ifWord, .fnWord]

theorem Expr.exists_pieces (e : Expr) :
    ∃ w ps, e.pieces = token w :: ps ∧ w.kind ∈ leading ∧
      (w.kind = .lparen → w = sign .lparen) := by
  cases e with
  | cond _ _ alternative => cases alternative <;> exact ⟨_, _, rfl, by decide, by decide⟩
  | bool b => cases b <;> exact ⟨_, _, rfl, by decide, by decide⟩
  | call callee args =>
    obtain ⟨w, ps, hps, hw⟩ := callee.exists_pieces
    exact ⟨w, _, by rw [Expr.pieces, hps, List.cons_append], hw⟩
  | unary | binary => exact ⟨_, _, rfl, by decide, fun _ => rfl⟩
  | fn => exact ⟨_, _, rfl, by decide, by decide⟩
  | ident | int | str =>
    refine ⟨_, _, rfl, ?_, ?_⟩ <;> simp [leading, Word.name, Word.int, quoted]

open Lexer in
theorem Word.Leads.head?_ne_eq {w : Word} {rest : List Char} (h : w.Leads rest)
    (hw : w.kind ∈ Expr.leading) : (w.text ++ rest).head? ≠ some '=' := by
  obtain ⟨c, cs, happ, -, hlexeme⟩ := h.lexeme_eq
  rw [happ]
  rintro ⟨⟩
  have hkind : w.kind = .eq ∨ w.kind = .assign := by
    have hw : (lexeme '=' cs).kind = w.kind := by rw [hlexeme]
    rw [← hw]
    cases cs with
    | nil => exact .inr rfl
    | cons d ds =>
      by_cases hd : d = '='
      · exact .inl (by simp [lexeme, hd, isWordStart])
      · exact .inr (by simp [lexeme, hd, isWordStart, single?])
  obtain hkind | hkind := hkind <;> rw [hkind] at hw <;> exact absurd hw (by decide)

theorem Expr.head?_ne_eq {e : Expr} {rest : List Char} (h : Cut e.pieces rest) :
    (texts e.pieces ++ rest).head? ≠ some '=' := by
  obtain ⟨w, ps, hps, hw, -⟩ := e.exists_pieces
  rw [hps] at h ⊢
  have hhead := Word.Leads.head?_ne_eq h.1 hw
  rwa [texts_cons, List.append_assoc]

theorem Word.ends_cons {c : Char} (h : Lexer.isWordRest c = false) (rest : List Char) :
    Ends (c :: rest) := by
  rw [Lexer.ends_iff]
  rintro _ ⟨⟩
  exact h

namespace Piece

variable {rest : List Char} {k : Token.Kind}

theorem fits_space : space.Fits rest := List.mem_cons_self

theorem fits_closed (hk : k ∈ Token.Kind.closed) : (fixed k).Fits rest := Word.Leads.closed hk

theorem fits_reserved (hk : k.isKeyword = true) : (fixed k).Fits (' ' :: rest) :=
  Word.Leads.reserved hk (ends_space rest)

theorem fits_unary (op : UnaryOp) (hrest : rest.head? ≠ some '=') :
    (fixed op.token).Fits rest := by
  cases op with
  | neg => exact fits_closed (by decide)
  | not => exact Word.Leads.half (by decide) hrest

theorem fits_binary (op : BinaryOp) : (fixed op.token).Fits (' ' :: rest) :=
  leads_sign (by cases op <;> decide) (ends_space rest) (by simp)

theorem cut_inBraces {ps : List Piece} (h : ∀ rest, Cut ps (' ' :: rest)) :
    Cut (inBraces ps) rest := by
  simp only [inBraces, cut_cons, cut_append]
  exact ⟨fits_closed (by decide), h _, fits_space, fits_closed (by decide), trivial⟩

/-- Pieces between commas are cut where each of them is. -/
theorem cut_separated {pss : List (List Piece)}
    (h : ∀ ps ∈ pss, ∀ rest, Ends rest → Cut ps rest) (hrest : Ends rest) :
    Cut (separated pss) rest := by
  fun_induction separated pss with
  | case1 => trivial
  | case2 ps => exact h ps List.mem_cons_self rest hrest
  | case3 ps qs pss ih =>
    rw [List.forall_mem_cons] at h
    simp only [cut_append, cut_cons]
    exact ⟨h.1 _ (ends_cons rfl _), fits_closed (by decide), fits_space, ih h.2⟩

end Piece

theorem Stmt.ends_allPieces (ss : List Stmt) {rest : List Char} (h : Ends rest) :
    Ends (texts (Stmt.allPieces ss) ++ rest) := by
  cases ss with
  | nil => exact h
  | cons s ss => exact ends_space _

theorem Expr.cut_params {xs : List String} (h : ∀ x ∈ xs, IsName x) :
    ∀ ps ∈ xs.map fun x => [token (name x)], ∀ rest, Ends rest → Cut ps rest := by
  simp only [List.forall_mem_map]
  exact fun x hx rest hrest => ⟨.name (h x hx) hrest, trivial⟩

mutual

/-- Where no name and no numeral goes on, an expression is cut into its pieces. -/
theorem Expr.cut_pieces (e : Expr) {rest : List Char} (h : e.WellFormed) (hrest : Ends rest) :
    Cut e.pieces rest := by
  match e with
  | .ident _ => exact ⟨.name h hrest, trivial⟩
  | .int _ => exact ⟨leads_int h hrest, trivial⟩
  | .str s =>
    refine ⟨?_, trivial⟩
    rw [Fits, quoted, Text.toList_quote]
    exact .string (Text.stringBody_escapes s.toList)
  | .bool b => exact ⟨.reserved (by cases b <;> rfl) hrest, trivial⟩
  | .unary op operand =>
    have hoperand : Cut operand.pieces (')' :: rest) := operand.cut_pieces h (ends_cons rfl _)
    have hop := fits_unary op (Expr.head?_ne_eq hoperand)
    simp only [Expr.pieces, cut_cons, cut_append, texts_append, List.append_assoc]
    exact ⟨fits_closed (by decide), hop, hoperand, fits_closed (by decide), trivial⟩
  | .binary op left right =>
    simp only [Expr.pieces, cut_cons, cut_append]
    exact ⟨fits_closed (by decide), left.cut_pieces h.1 (ends_space _), fits_space,
      fits_binary op, fits_space, right.cut_pieces h.2 (ends_cons rfl _), fits_closed (by decide),
      trivial⟩
  | .cond condition consequence none =>
    simp only [Expr.pieces, cut_cons, cut_append]
    exact ⟨fits_reserved rfl, fits_space, condition.cut_pieces h.1 (ends_space _), fits_space,
      cut_inBraces fun _ => Stmt.cut_allPieces consequence h.2 (ends_space _)⟩
  | .cond condition consequence (some alternative) =>
    simp only [Expr.pieces, cut_cons, cut_append]
    exact ⟨fits_reserved rfl, fits_space, condition.cut_pieces h.1 (ends_space _), fits_space,
      cut_inBraces fun _ => Stmt.cut_allPieces consequence h.2.1 (ends_space _), fits_space,
      fits_reserved rfl, fits_space,
      cut_inBraces fun _ => Stmt.cut_allPieces alternative h.2.2 (ends_space _)⟩
  | .fn params body =>
    simp only [Expr.pieces, cut_cons, cut_append]
    exact ⟨.reserved rfl (ends_cons rfl _), fits_closed (by decide),
      cut_separated (Expr.cut_params h.1) (ends_cons rfl _), fits_closed (by decide), fits_space,
      cut_inBraces fun _ => Stmt.cut_allPieces body h.2 (ends_space _)⟩
  | .call callee args =>
    simp only [Expr.pieces, cut_cons, cut_append]
    exact ⟨callee.cut_pieces h.1 (ends_cons rfl _), fits_closed (by decide),
      cut_separated (Expr.cut_allPieces args h.2) (ends_cons rfl _), fits_closed (by decide),
      trivial⟩

theorem Expr.cut_allPieces (es : List Expr) (h : Expr.AllWellFormed es) :
    ∀ ps ∈ Expr.allPieces es, ∀ rest, Ends rest → Cut ps rest := by
  match es with
  | [] => exact nofun
  | e :: es =>
    simp only [Expr.allPieces, List.forall_mem_cons]
    exact ⟨fun _ hrest => e.cut_pieces h.1 hrest, Expr.cut_allPieces es h.2⟩

theorem Stmt.cut_pieces (s : Stmt) {rest : List Char} (h : s.WellFormed) (hrest : Ends rest) :
    Cut s.pieces rest := by
  match s with
  | .bind x value =>
    simp only [Stmt.pieces, cut_cons, cut_append]
    exact ⟨fits_reserved rfl, fits_space, .name h.1 (ends_space _), fits_space,
      .half (by decide) (by simp), fits_space, value.cut_pieces h.2 (ends_cons rfl _),
      fits_closed (by decide), trivial⟩
  | .ret value =>
    simp only [Stmt.pieces, cut_cons, cut_append]
    exact ⟨fits_reserved rfl, fits_space, value.cut_pieces h (ends_cons rfl _),
      fits_closed (by decide), trivial⟩
  | .expr value => exact value.cut_pieces h hrest

theorem Stmt.cut_allPieces (ss : List Stmt) {rest : List Char} (h : Stmt.AllWellFormed ss)
    (hrest : Ends rest) : Cut (Stmt.allPieces ss) rest := by
  match ss with
  | [] => trivial
  | s :: ss =>
    simp only [Stmt.allPieces, cut_cons, cut_append]
    exact ⟨fits_space, s.cut_pieces h.1 (Stmt.ends_allPieces ss hrest),
      Stmt.cut_allPieces ss h.2 hrest⟩

end

theorem Word.ends_nil : Ends [] := nofun

/-- A rendered program is cut into its pieces. -/
theorem Program.decomposes_render {p : Program} (h : Stmt.AllWellFormed p) :
    Decomposes p.render.toList p.pieces where
  texts_eq := p.texts_pieces
  cut := by
    cases p with
    | nil => trivial
    | cons s ss =>
      rw [Program.pieces, cut_append]
      exact ⟨s.cut_pieces h.1 (Stmt.ends_allPieces ss ends_nil), Stmt.cut_allPieces ss h.2 ends_nil⟩

end Monkey

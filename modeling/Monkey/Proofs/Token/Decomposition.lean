import Monkey.Proofs.Token.LexicalGrammar

/-! # Texts cut into layout and tokens

A text is cut into pieces, each of them a character of layout or the token that leads
there. Every text has exactly one such cut, and its tokens, in their order, are the
tokens of the text. A cut is judged piece by piece with the rest of the text in view,
so cuts of two texts join into one of both together.
-/

namespace Monkey

/-- A part of a text. -/
inductive Piece
  | layout (c : Char)
  | token (w : Word)
  deriving DecidableEq, Repr

namespace Piece

/-- The text of a piece. -/
def text : Piece → List Char
  | layout c => [c]
  | token w => w.text

/-- The word of a piece that is a token. -/
def word? : Piece → Option Word
  | layout _ => none
  | token w => some w

/-- The text that pieces make up. -/
def texts (ps : List Piece) : List Char :=
  ps.flatMap text

/-- The words among pieces. -/
def words (ps : List Piece) : List Word :=
  ps.filterMap word?

/-- Whether a piece may stand where the text goes on with `rest`. -/
def Fits : Piece → List Char → Prop
  | layout c, _ => c ∈ [' ', '\t', '\r', '\n']
  | token w, rest => w.Leads rest

/-- Whether every piece fits where it stands, in a text that goes on with `rest`. -/
def Cut : List Piece → List Char → Prop
  | [], _ => True
  | p :: ps, rest => p.Fits (texts ps ++ rest) ∧ Cut ps rest

/-- Whether pieces are a text cut as the lexical grammar says: nothing is lost or moved. -/
structure Decomposes (cs : List Char) (ps : List Piece) : Prop where
  texts_eq : texts ps = cs
  cut : Cut ps []

/-- The tokens among pieces that stand from a place on. -/
def tokensAt : Position → List Piece → List Token
  | _, [] => []
  | p, layout c :: ps => tokensAt (p.advance c) ps
  | p, token w :: ps => ⟨w.kind, String.ofList w.text, p⟩ :: tokensAt (p.after w.text) ps

variable {p q : Piece} {ps qs : List Piece} {rest tail : List Char}

@[simp] theorem texts_nil : texts [] = [] := rfl

@[simp] theorem texts_cons (p : Piece) (ps : List Piece) : texts (p :: ps) = p.text ++ texts ps :=
  rfl

@[simp] theorem texts_append (ps qs : List Piece) : texts (ps ++ qs) = texts ps ++ texts qs :=
  List.flatMap_append

@[simp] theorem words_nil : words [] = [] := rfl

@[simp] theorem words_layout (c : Char) (ps : List Piece) :
    words (layout c :: ps) = words ps := rfl

@[simp] theorem words_token (w : Word) (ps : List Piece) :
    words (token w :: ps) = w :: words ps := rfl

@[simp] theorem words_append (ps qs : List Piece) : words (ps ++ qs) = words ps ++ words qs :=
  List.filterMap_append

@[simp] theorem cut_nil (rest : List Char) : Cut [] rest := trivial

@[simp] theorem cut_cons : Cut (p :: ps) rest ↔ p.Fits (texts ps ++ rest) ∧ Cut ps rest := Iff.rfl

/-- Pieces are cut where the pieces after them are part of what follows. -/
@[simp] theorem cut_append : Cut (ps ++ qs) rest ↔ Cut ps (texts qs ++ rest) ∧ Cut qs rest := by
  induction ps with
  | nil => simp
  | cons p ps ih => simp [ih, and_assoc]

theorem isLayout_iff {c : Char} : Lexer.isLayout c = true ↔ c ∈ [' ', '\t', '\r', '\n'] := by
  simp [Lexer.isLayout, or_assoc]

/-- Where a text stands, only one piece fits. -/
theorem Fits.unique (hp : p.Fits rest) (hq : q.Fits tail) (h : p.text ++ rest = q.text ++ tail) :
    p = q ∧ rest = tail := by
  cases p with
  | layout c =>
    cases q with
    | layout d =>
      cases h
      exact ⟨rfl, rfl⟩
    | token w =>
      obtain ⟨d, ds, htext, hlayout, -⟩ := Word.Leads.lexeme_eq hq
      cases h.trans htext
      rw [isLayout_iff.2 hp] at hlayout
      cases hlayout
  | token w =>
    obtain ⟨c, cs, htext, hlayout, hlexeme⟩ := Word.Leads.lexeme_eq hp
    cases q with
    | layout d =>
      cases htext.symm.trans h
      rw [isLayout_iff.2 hq] at hlayout
      cases hlayout
    | token u =>
      obtain ⟨d, ds, htext', -, hlexeme'⟩ := Word.Leads.lexeme_eq hq
      cases (htext.symm.trans h).trans htext'
      obtain ⟨kind, text⟩ := w
      cases hlexeme.symm.trans hlexeme'
      exact ⟨rfl, rfl⟩

theorem Fits.text_ne_nil (h : p.Fits rest) : p.text ≠ [] := by
  cases p with
  | layout c => exact List.cons_ne_nil c []
  | token w =>
    obtain ⟨c, cs, -, -, hlexeme⟩ := Word.Leads.lexeme_eq h
    have hne := Lexer.lexeme_text_ne_nil c cs
    rwa [hlexeme] at hne

/-- A text is cut in one way only. -/
theorem Cut.unique (hp : Cut ps []) (hq : Cut qs []) (h : texts ps = texts qs) : ps = qs := by
  induction ps generalizing qs with
  | nil =>
    cases qs with
    | nil => rfl
    | cons q qs =>
      have hnil := List.append_eq_nil_iff.1 h.symm
      exact absurd hnil.1 hq.1.text_ne_nil
  | cons p ps ih =>
    cases qs with
    | nil =>
      have hnil := List.append_eq_nil_iff.1 h
      exact absurd hnil.1 hp.1.text_ne_nil
    | cons q qs =>
      have hfit := hp.1.unique hq.1 (by simpa using h)
      simp only [List.append_nil] at hfit
      rw [hfit.1, ih hp.2 hq.2 hfit.2]

open Lexer in
/-- Every text can be cut. -/
theorem exists_decomposes (cs : List Char) : ∃ ps, Decomposes cs ps := by
  fun_induction tokensFrom .start cs with
  | case1 => exact ⟨[], rfl, trivial⟩
  | case2 _ c cs hlayout ih =>
    obtain ⟨ps, rfl, hcut⟩ := ih
    exact ⟨layout c :: ps, rfl, isLayout_iff.1 hlayout, hcut⟩
  | case3 _ c cs hlayout ih =>
    obtain ⟨ps, htexts, hcut⟩ := ih
    refine ⟨token ⟨(lexeme c cs).kind, (lexeme c cs).text⟩ :: ps, ?_, ?_, hcut⟩
    · rw [texts_cons, htexts]
      exact lexeme_append c cs
    · rw [htexts, List.append_nil]
      exact leads_lexeme (Bool.eq_false_iff.2 hlayout) cs

open Lexer in
/-- The tokens of a text that begins with pieces are those of the pieces and of what follows. -/
theorem tokensFrom_append (h : Cut ps rest) (p : Position) :
    tokensFrom p (texts ps ++ rest) =
      tokensAt p ps ++ tokensFrom (p.after (texts ps)) rest := by
  induction ps generalizing p with
  | nil => rfl
  | cons q ps ih =>
    obtain ⟨hfits, hcut⟩ := h
    rw [texts_cons, Position.after_append, List.append_assoc]
    cases q with
    | layout c =>
      rw [text, List.singleton_append, tokensFrom, if_pos (isLayout_iff.2 hfits), ih hcut]
      rfl
    | token w =>
      obtain ⟨c, cs, htext, hlayout, hlexeme⟩ := Word.Leads.lexeme_eq hfits
      rw [text, htext, tokensFrom, if_neg (by simp [hlayout]), hlexeme, ih hcut]
      rfl

open Lexer in
/-- The tokens of a text that is cut are those of its pieces. -/
theorem tokensFrom_texts (h : Cut ps []) (p : Position) :
    tokensFrom p (texts ps) = tokensAt p ps ++ [Token.endOfText (p.after (texts ps))] := by
  have happ := tokensFrom_append h p
  rwa [List.append_nil, tokensFrom] at happ

theorem map_word_tokensAt (p : Position) (ps : List Piece) :
    (tokensAt p ps).map Token.word = words ps := by
  fun_induction tokensAt p ps with
  | case1 => rfl
  | case2 p c ps ih => exact ih
  | case3 p w ps ih => simp [Token.word, ih]

/-- The cut of a text tells its tokens but for where they stand. -/
theorem Decomposes.map_word_tokenize {source : String} {ps : List Piece}
    (h : Decomposes source.toList ps) :
    (tokenize source).map Token.word = words ps ++ [⟨.eof, []⟩] := by
  rw [tokenize, ← h.texts_eq, tokensFrom_texts h.cut, List.map_append, map_word_tokensAt]
  rfl

theorem mem_words_of_cut (h : Cut ps rest) {w : Word} (hw : w ∈ words ps) :
    ∃ tail, w.Leads tail := by
  obtain ⟨p, hp, hword⟩ := List.mem_filterMap.1 hw
  obtain ⟨qs, rs, rfl⟩ := List.append_of_mem hp
  cases p with
  | layout c => cases hword
  | token u =>
    cases hword
    exact ⟨_, (cut_append.1 h).2.1⟩

end Piece

/-- What leads and is of a kind without a sign is a name, a numeral, a string or illegal. -/
theorem Word.Leads.of_sign_eq_empty {w : Word} {rest : List Char} (h : w.Leads rest)
    (hw : w.kind.sign = "") :
    w.kind = .ident ∨ (w.kind = .int ∧ w.text ≠ [] ∧ ∀ d ∈ w.text, d.isDigit = true) ∨
      (w.kind = .string ∧ ∃ body, StringBody body ∧ w.text = '"' :: (body ++ ['"'])) ∨
      w.kind = .illegal := by
  cases h with
  | @reserved k _ hk _ | @double k _ hk | @closed k _ hk | @half k _ hk _ =>
    change k.sign = "" at hw
    exact absurd hw (by revert hk; cases k <;> decide)
  | name => exact .inl rfl
  | numeral hne hds => exact .inr (.inl ⟨rfl, hne, hds⟩)
  | string hbody => exact .inr (.inr (.inl ⟨rfl, _, hbody, rfl⟩))
  | unclosed | other => exact .inr (.inr (.inr rfl))

theorem Word.Leads.kind_ne_eof {w : Word} {rest : List Char} (h : w.Leads rest) :
    w.kind ≠ .eof := by
  intro hk
  rcases h.of_sign_eq_empty (by rw [hk]; rfl) with hk' | ⟨hk', -⟩ | ⟨hk', -⟩ | hk'
  all_goals cases hk.symm.trans hk'

open Piece in
/-- Every token of a text but the end of it leads what stood behind it. -/
theorem exists_leads_of_mem_tokenize {source : String} {t : Token} (ht : t ∈ tokenize source)
    (hk : t.kind ≠ .eof) : ∃ tail, t.word.Leads tail := by
  obtain ⟨ps, hps⟩ := exists_decomposes source.toList
  have hmem : t.word ∈ (tokenize source).map Token.word := List.mem_map_of_mem ht
  rw [hps.map_word_tokenize] at hmem
  rcases List.mem_append.1 hmem with hmem | hmem
  · exact mem_words_of_cut hps.cut hmem
  · have hword := List.mem_singleton.1 hmem
    exact absurd (congrArg Word.kind hword) hk

open Piece in
/--
A text is cut in exactly one way, and its tokens are those of the cut, with the text that each
covers. One end of text without a text of its own stands behind them.
-/
theorem tokenize_decomposes (source : String) :
    ∃ ps, Decomposes source.toList ps ∧ (∀ qs, Decomposes source.toList qs → qs = ps) ∧
      (tokenize source).map Token.word = words ps ++ [⟨.eof, []⟩] ∧
      ∀ w ∈ words ps, w.kind ≠ .eof := by
  obtain ⟨ps, htexts, hcut⟩ := exists_decomposes source.toList
  refine ⟨ps, ⟨htexts, hcut⟩, ?_, ?_, ?_⟩
  · rintro qs ⟨htexts', hcut'⟩
    exact hcut'.unique hcut (htexts'.trans htexts.symm)
  · exact Decomposes.map_word_tokenize ⟨htexts, hcut⟩
  · intro w hw
    obtain ⟨tail, hlead⟩ := mem_words_of_cut hcut hw
    exact hlead.kind_ne_eof

end Monkey

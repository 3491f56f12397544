import Monkey.Proofs.Token.Respacing
import Monkey.Proofs.Token.Scanning

/-! # Texts joined by layout

A text that has no open quote is read to its end before the layout behind it, and what
follows that layout is read as a text of its own. Only the places differ: they count the
lines and the characters of all that stands before.
-/

namespace Monkey

namespace Position

/-- The place, in a text that goes on from `cs`, of what stands at `p` where nothing is before. -/
def behind (cs : List Char) (p : Position) : Position where
  line := p.line + cs.count '\n'
  column := if p.line = 1 then p.column + (cs.reverse.takeWhile (· ≠ '\n')).length else p.column

theorem behind_start (cs : List Char) : start.behind cs = start.after cs := by
  rw [after_start, behind, start, if_pos rfl]

variable {p : Position}

theorem line_advance_pos (hp : 0 < p.line) (c : Char) : 0 < (p.advance c).line := by
  unfold advance
  split
  · exact Nat.succ_pos _
  · exact hp

theorem line_after_pos (hp : 0 < p.line) (ds : List Char) : 0 < (p.after ds).line := by
  induction ds generalizing p with
  | nil => exact hp
  | cons d ds ih => exact ih (line_advance_pos hp d)

/-- Lines are counted from one, so a line feed always leads out of the first line. -/
theorem behind_advance (cs : List Char) (hp : 0 < p.line) (c : Char) :
    (p.behind cs).advance c = (p.advance c).behind cs := by
  by_cases hc : c = '\n'
  · have hline : p.line + 1 ≠ 1 := by omega
    simp only [advance, behind, hc, if_true, if_neg hline]
    rw [Nat.add_right_comm]
  · simp only [advance, behind, hc, if_false]
    split <;> simp only [Nat.add_right_comm]

theorem behind_after (cs : List Char) (hp : 0 < p.line) (ds : List Char) :
    (p.behind cs).after ds = (p.after ds).behind cs := by
  induction ds generalizing p with
  | nil => rfl
  | cons d ds ih => rw [after_cons, behind_advance cs hp, ih (line_advance_pos hp d), after_cons]

end Position

/-- A token that moves behind a text. -/
def Token.behind (cs : List Char) (t : Token) : Token :=
  { t with position := t.position.behind cs }

/-- The tokens of a text do not depend on where it begins, but for their places. -/
theorem Lexer.tokensFrom_behind (cs : List Char) {p : Position} (hp : 0 < p.line)
    (ds : List Char) :
    tokensFrom (p.behind cs) ds = (tokensFrom p ds).map (Token.behind cs) := by
  fun_induction tokensFrom p ds with
  | case1 p => rw [tokensFrom]; rfl
  | case2 p c ds hlayout ih =>
    rw [tokensFrom, if_pos hlayout, Position.behind_advance cs hp,
      ih (Position.line_advance_pos hp c)]
  | case3 p c ds hlayout ih =>
    rw [tokensFrom, if_neg hlayout, Position.behind_after cs hp,
      ih (Position.line_after_pos hp _), List.map_cons]
    rfl

namespace Piece

variable {ps : List Piece} {rest tail : List Char}

theorem tokensAt_map_layout (p : Position) (cs : List Char) : tokensAt p (cs.map layout) = [] := by
  induction cs generalizing p with
  | nil => rfl
  | cons c cs ih => exact ih (p.advance c)

/-- Without an open quote, pieces fit before layout where they fit before another text. -/
theorem Cut.of_head (h : Cut ps tail) (hquote : ∀ w ∈ words ps, w ≠ ⟨.illegal, ['"']⟩)
    (hrest : ∀ c ∈ rest.head?, c ∈ tail.head? ∨ c ∈ [' ', '\t', '\r', '\n']) : Cut ps rest := by
  induction ps with
  | nil => trivial
  | cons p ps ih =>
    cases p with
    | layout c => exact ⟨h.1, ih h.2 hquote⟩
    | token w =>
      rw [words_token, List.forall_mem_cons] at hquote
      refine ⟨Word.Leads.of_head h.1 hquote.1 ?_, ih h.2 hquote.2⟩
      intro c hc
      rw [List.head?_append] at hc ⊢
      cases hps : (texts ps).head? with
      | none =>
        rw [hps] at hc
        exact hrest c hc
      | some d =>
        rw [hps] at hc
        exact .inl hc

/-- A text with no open quote can be cut before layout as if it ended there. -/
theorem Decomposes.cut_layout {source : String} (h : Decomposes source.toList ps)
    (hquote : ∀ t ∈ tokenize source, t.kind = .illegal → t.literal ≠ "\"")
    (hrest : ∀ c ∈ rest.head?, c ∈ [' ', '\t', '\r', '\n']) : Cut ps rest := by
  refine h.cut.of_head (fun w hw hword => ?_) fun c hc => .inr (hrest c hc)
  have hmem : w ∈ (tokenize source).map Token.word := by
    rw [h.map_word_tokenize]
    exact List.mem_append_left _ hw
  obtain ⟨t, ht, rfl⟩ := List.mem_map.1 hmem
  refine hquote t ht (congrArg Word.kind hword) ?_
  exact String.toList_inj.1 (congrArg Word.text hword)

end Piece

open Lexer Piece in
/--
The tokens of two texts with layout between them are those of the first, without its end, and those
of the second at places that are moved by what stands before: each line by the line feeds in it,
and the columns of the first line by the characters since the last of them. One pass over the whole
reads the same. It is enough that the first text has no quote that nothing closes.
-/
theorem tokenize_append {a w b : String} (hw : w ≠ "")
    (hlayout : ∀ c ∈ w.toList, c ∈ [' ', '\t', '\r', '\n'])
    (hquote : ∀ t ∈ tokenize a, t.kind = .illegal → t.literal ≠ "\"") :
    tokenize (a ++ w ++ b) =
        (tokenize a).dropLast ++ (tokenize b).map (Token.behind (a ++ w).toList) ∧
      scan (a ++ w ++ b) = (scan a).dropLast ++ (scan b).map (Token.behind (a ++ w).toList) := by
  suffices h : tokenize (a ++ w ++ b) =
      (tokenize a).dropLast ++ (tokenize b).map (Token.behind (a ++ w).toList) by
    simp only [scan_eq_tokenize]
    exact ⟨h, h⟩
  obtain ⟨ps, hps⟩ := exists_decomposes a.toList
  have hhead : ∀ c ∈ (w.toList ++ b.toList).head?, c ∈ [' ', '\t', '\r', '\n'] := by
    intro c hc
    obtain ⟨d, ds, hcs⟩ := List.exists_cons_of_ne_nil fun h => hw (String.toList_inj.1 h)
    rw [hcs] at hc hlayout
    cases hc
    exact hlayout c List.mem_cons_self
  have hfirst : tokensAt .start ps = (tokenize a).dropLast := by
    rw [tokenize, ← hps.texts_eq, tokensFrom_texts hps.cut, List.dropLast_concat]
  calc tokenize (a ++ w ++ b)
      = tokensFrom .start (texts ps ++ (w.toList ++ b.toList)) := by
        rw [tokenize, String.toList_append, String.toList_append, hps.texts_eq, List.append_assoc]
    _ = (tokenize a).dropLast ++ tokensFrom (Position.start.after a.toList)
          (texts (w.toList.map layout) ++ b.toList) := by
        rw [tokensFrom_append (hps.cut_layout hquote hhead), hfirst, hps.texts_eq,
          texts_map_layout]
    _ = (tokenize a).dropLast ++ tokensFrom (Position.start.behind (a ++ w).toList) b.toList := by
        rw [tokensFrom_append (cut_map_layout hlayout), texts_map_layout, tokensAt_map_layout,
          List.nil_append, ← Position.after_append, Position.behind_start, String.toList_append]
    _ = (tokenize a).dropLast ++ (tokenize b).map (Token.behind (a ++ w).toList) := by
        rw [tokensFrom_behind _ (Nat.succ_pos 0)]
        rfl

/-- A string over two lines and a word, then layout with a line feed in it, then two lines. -/
theorem tokenize_append_lines :
    let a := "\"x\n\" y"
    let w := "\r\n "
    let b := "1 +\n2"
    w ≠ "" ∧ (∀ c ∈ w.toList, c ∈ [' ', '\t', '\r', '\n']) ∧
      (∀ t ∈ tokenize a, t.kind = .illegal → t.literal ≠ "\"") ∧
      tokenize (a ++ w ++ b) = [⟨.string, "\"x\n\"", ⟨1, 1⟩⟩, ⟨.ident, "y", ⟨2, 3⟩⟩,
        ⟨.int, "1", ⟨3, 2⟩⟩, ⟨.plus, "+", ⟨3, 4⟩⟩, ⟨.int, "2", ⟨4, 1⟩⟩, ⟨.eof, "", ⟨4, 2⟩⟩] := by
  intro a w b
  have hw : w ≠ "" := by decide
  have hlayout : ∀ c ∈ w.toList, c ∈ [' ', '\t', '\r', '\n'] := by simp [w]
  have ha : tokenize a = [⟨.string, "\"x\n\"", ⟨1, 1⟩⟩, ⟨.ident, "y", ⟨2, 3⟩⟩,
      ⟨.eof, "", ⟨2, 4⟩⟩] := by decide +kernel
  have hb : tokenize b = [⟨.int, "1", ⟨1, 1⟩⟩, ⟨.plus, "+", ⟨1, 3⟩⟩, ⟨.int, "2", ⟨2, 1⟩⟩,
      ⟨.eof, "", ⟨2, 2⟩⟩] := by decide +kernel
  have hquote : ∀ t ∈ tokenize a, t.kind = .illegal → t.literal ≠ "\"" := by
    rw [ha]
    decide
  refine ⟨hw, hlayout, hquote, ?_⟩
  rw [(tokenize_append hw hlayout hquote).1, ha, hb]
  decide +kernel

end Monkey

import Monkey.Proofs.Printer.Nodes
import Monkey.Proofs.Syntax.Readability

/-! # Labels tell nodes apart

The label of a node in a well-formed program is one word, or one word and after it a name,
a literal, an operator or parameters. It stays on its line and does not begin with a
space, and together with the nodes below it says what the node is.
-/

namespace Monkey

open Piece

/-! ## What labels are made of -/

theorem IsName.isAlphanum {x : String} (h : IsName x) {c : Char} (hc : c ∈ x.toList) :
    c.isAlphanum ∨ c = '_' := by
  obtain ⟨⟨d, ds, hx, hd, hds⟩, -⟩ := h
  rw [hx, List.mem_cons] at hc
  rcases hc with rfl | hc
  · exact hd.imp (fun halpha => by simp [Char.isAlphanum, halpha]) id
  · exact hds c hc

/-- Names between commas are told apart. -/
theorem commaSeparated_inj {xs ys : List String} (hxs : ∀ x ∈ xs, IsName x)
    (hys : ∀ y ∈ ys, IsName y) (h : commaSeparated xs = commaSeparated ys) : xs = ys := by
  have htexts (zs : List String) :
      (zs.map fun z => [token (Word.name z)]).map texts = zs.map String.toList := by
    rw [List.map_map]
    exact List.map_congr_left fun z _ => List.append_nil z.toList
  have heq : texts (separated (xs.map fun x => [token (Word.name x)])) =
      texts (separated (ys.map fun y => [token (Word.name y)])) := by
    rw [texts_commaSeparated (htexts xs), texts_commaSeparated (htexts ys), h]
  have hpieces := Cut.unique (cut_separated (Expr.cut_params hxs) nofun)
    (cut_separated (Expr.cut_params hys) nofun) heq
  exact (separated_inj (fun x => ⟨Word.name x, [], rfl, nofun⟩) (fun x _ => Expr.told_name x)
    (congrArg (· ++ [fixed .rparen]) hpieces)).1

theorem newline_not_mem_commaSeparated {xs : List String} (h : ∀ x ∈ xs, '\n' ∉ x.toList) :
    '\n' ∉ (commaSeparated xs).toList := by
  induction xs with
  | nil => exact List.not_mem_nil
  | cons x xs ih =>
    rw [List.forall_mem_cons] at h
    cases xs with
    | nil =>
      rw [commaSeparated, String.intercalate_singleton]
      exact h.1
    | cons y ys =>
      rw [commaSeparated, String.intercalate_cons_cons, String.toList_append, String.toList_append,
        List.mem_append, List.mem_append, not_or, not_or]
      exact ⟨⟨h.1, by decide⟩, ih h.2⟩

theorem UnaryOp.symbol_inj {op op' : UnaryOp} (h : op.symbol = op'.symbol) : op = op' := by
  cases op <;> cases op' <;> first | rfl | exact absurd h (by decide)

theorem BinaryOp.symbol_inj {op op' : BinaryOp} (h : op.symbol = op'.symbol) : op = op' := by
  cases op <;> cases op' <;> first | rfl | exact absurd h (by decide)

namespace Text

theorem newline_not_mem_escape (c : Char) : '\n' ∉ escape c := by
  rcases escape_cases c with ⟨l, hletter, hc⟩ | ⟨hletter, hc⟩ | ⟨hletter, hc⟩
  · have hl : '\n' ≠ l := by
      rintro rfl
      unfold escapeLetter? at hletter
      split at hletter <;> simp at hletter
    rw [hc]
    simp [hl]
  · have hne : '\n' ≠ c := by
      rintro rfl
      cases hletter
    rw [hc]
    simp [hne]
  · have hdigits : '\n' ∉ Nat.toDigits 16 c.toNat := by
      intro hmem
      obtain ⟨k, hk⟩ := exists_digitChar hmem
      exact Nat.digitChar_ne _ rfl hk.symm
    rw [hc, numericEscape]
    simp [hdigits]

theorem newline_not_mem_quote (s : String) : '\n' ∉ (quote s).toList := by
  rw [toList_quote]
  simp [newline_not_mem_escape]

end Text

theorem Stmt.AllWellFormed.of_mem {ss : List Stmt} (h : Stmt.AllWellFormed ss) {s : Stmt}
    (hs : s ∈ ss) : s.WellFormed := by
  induction hs with
  | head => exact h.1
  | tail _ _ ih => exact ih h.2

theorem Expr.AllWellFormed.of_mem {es : List Expr} (h : Expr.AllWellFormed es) {e : Expr}
    (he : e ∈ es) : e.WellFormed := by
  induction he with
  | head => exact h.1
  | tail _ _ ih => exact ih h.2

namespace Node

/-- Whether a node is one of a well-formed program. -/
def WellFormed : Node → Prop
  | program p => Stmt.AllWellFormed p
  | block b => Stmt.AllWellFormed b
  | statement s => s.WellFormed
  | expression e => e.WellFormed

theorem WellFormed.of_mem_children {n c : Node} (h : n.WellFormed) (hc : c ∈ n.children) :
    c.WellFormed := by
  have hstatements {ss : List Stmt} (hss : Stmt.AllWellFormed ss) (hc : c ∈ ss.map statement) :
      c.WellFormed := by
    obtain ⟨s, hs, rfl⟩ := List.mem_map.1 hc
    exact hss.of_mem hs
  unfold children at hc
  split at hc
  case h_1 | h_2 => exact hstatements h hc
  case h_15 callee args =>
    rcases List.mem_cons.1 hc with rfl | hc
    · exact h.1
    · obtain ⟨e, he, rfl⟩ := List.mem_map.1 hc
      exact h.2.of_mem he
  all_goals
    simp only [WellFormed, Stmt.WellFormed, Expr.WellFormed] at h
    grind [WellFormed]

theorem newline_not_mem_label {n : Node} (h : n.WellFormed) : '\n' ∉ n.label.toList := by
  have hname {x : String} (hx : IsName x) : '\n' ∉ x.toList := fun hc =>
    absurd (hx.isAlphanum hc) (by decide)
  have happend {t u : String} (ht : '\n' ∉ t.toList) (hu : '\n' ∉ u.toList) :
      '\n' ∉ (t ++ u).toList := by
    rw [String.toList_append, List.mem_append, not_or]
    exact ⟨ht, hu⟩
  cases n with
  | program p => exact (by decide : '\n' ∉ "Program".toList)
  | block b => exact (by decide : '\n' ∉ "BlockStatement".toList)
  | statement s =>
    cases s with
    | bind x value => exact happend (by decide) (hname h.1)
    | ret value => exact (by decide : '\n' ∉ "ReturnStatement".toList)
    | expr value => exact (by decide : '\n' ∉ "ExpressionStatement".toList)
  | expression e =>
    cases e with
    | ident x => exact happend (by decide) (hname h)
    | int k =>
      refine happend (by decide) fun hc => ?_
      exact absurd (Word.isDigit_toText h _ hc) (by decide)
    | str t => exact happend (by decide) (Text.newline_not_mem_quote t)
    | bool b => exact happend (by decide) (by cases b <;> decide)
    | unary op operand => exact happend (by decide) (by cases op <;> decide)
    | binary op left right => exact happend (by decide) (by cases op <;> decide)
    | cond condition consequence alternative => exact (by decide : '\n' ∉ "IfExpression".toList)
    | fn params body =>
      have hparams := newline_not_mem_commaSeparated fun x hx => hname (h.1 x hx)
      exact happend (happend (by decide) hparams) (by decide)
    | call callee args => exact (by decide : '\n' ∉ "CallExpression".toList)

theorem head?_label (n : Node) : n.label.toList.head? ≠ some ' ' := by
  unfold label
  split <;> simp

/-- The words that labels begin with, one for each sort of node. -/
inductive Heading
  | program
  | block
  | bind
  | ret
  | expr
  | ident
  | int
  | str
  | bool
  | unary
  | binary
  | cond
  | fn
  | call
  deriving DecidableEq

namespace Heading

/-- How a heading is written. -/
def text : Heading → String
  | program => "Program"
  | block => "BlockStatement"
  | bind => "LetStatement"
  | ret => "ReturnStatement"
  | expr => "ExpressionStatement"
  | ident => "Identifier"
  | int => "IntegerLiteral"
  | str => "StringLiteral"
  | bool => "BooleanLiteral"
  | unary => "PrefixExpression"
  | binary => "InfixExpression"
  | cond => "IfExpression"
  | fn => "FunctionLiteral"
  | call => "CallExpression"

/-- All headings. -/
def all : List Heading :=
  [program, block, bind, ret, expr, ident, int, str, bool, unary, binary, cond, fn, call]

theorem find?_text (h : Heading) : all.find? (fun k => k.text = h.text) = some h := by
  cases h <;> decide +kernel

theorem text_inj {h k : Heading} (heq : h.text = k.text) : h = k := by
  have hfind := find?_text h
  rw [heq, find?_text k] at hfind
  exact (Option.some.inj hfind).symm

end Heading

/-- The heading of the sort of a node. -/
def heading : Node → Heading
  | program _ => .program
  | block _ => .block
  | statement (.bind ..) => .bind
  | statement (.ret _) => .ret
  | statement (.expr _) => .expr
  | expression (.ident _) => .ident
  | expression (.int _) => .int
  | expression (.str _) => .str
  | expression (.bool _) => .bool
  | expression (.unary ..) => .unary
  | expression (.binary ..) => .binary
  | expression (.cond ..) => .cond
  | expression (.fn ..) => .fn
  | expression (.call ..) => .call

/-- A label begins with the heading of the sort of its node. -/
theorem takeWhile_label (n : Node) :
    n.label.toList.takeWhile (· ≠ ' ') = n.heading.text.toList := by
  unfold label
  split <;> simp [heading, Heading.text]

/-- Whether a node is of the sort that a heading is for. -/
def Heading.Heads : Heading → Node → Prop
  | program, n => ∃ p, n = .program p
  | block, n => ∃ b, n = .block b
  | bind, n => ∃ x value, n = statement (.bind x value)
  | ret, n => ∃ value, n = statement (.ret value)
  | expr, n => ∃ value, n = statement (.expr value)
  | ident, n => ∃ x, n = expression (.ident x)
  | int, n => ∃ k, n = expression (.int k)
  | str, n => ∃ t, n = expression (.str t)
  | bool, n => ∃ b, n = expression (.bool b)
  | unary, n => ∃ op e, n = expression (.unary op e)
  | binary, n => ∃ op l r, n = expression (.binary op l r)
  | cond, n => ∃ c b d, n = expression (.cond c b d)
  | fn, n => ∃ xs b, n = expression (.fn xs b)
  | call, n => ∃ f es, n = expression (.call f es)

theorem heads_heading (n : Node) : n.heading.Heads n := by
  unfold heading
  split <;> simp [Heading.Heads]

theorem heading_eq {n m : Node} (h : n.label = m.label) : n.heading = m.heading := by
  apply Heading.text_inj
  rw [← String.toList_inj, ← takeWhile_label, ← takeWhile_label, h]

theorem statements_inj {ss ts : List Stmt} (h : ss.map statement = ts.map statement) : ss = ts :=
  List.map_injective_iff.2 (fun _ _ h => statement.inj h) h

/-- A node is what its label and the nodes below it say. -/
theorem eq_of_label {n m : Node} (hn : n.WellFormed) (hm : m.WellFormed)
    (hlabel : n.label = m.label) (hchildren : n.children = m.children) : n = m := by
  -- The heading makes `m` a node of the sort of `n`; the rest of the label and the children
  -- then say what it is made of.
  have hsort : n.heading.Heads m := by
    rw [heading_eq hlabel]
    exact heads_heading m
  cases n with
  | program p =>
    obtain ⟨q, rfl⟩ := hsort
    exact congrArg program (statements_inj hchildren)
  | block b =>
    obtain ⟨c, rfl⟩ := hsort
    exact congrArg block (statements_inj hchildren)
  | statement s =>
    cases s with
    | bind x value =>
      obtain ⟨y, value', rfl⟩ := hsort
      obtain rfl : x = y := (String.append_right_inj _).1 hlabel
      cases hchildren
      rfl
    | ret value | expr value =>
      obtain ⟨value', rfl⟩ := hsort
      cases hchildren
      rfl
  | expression e =>
    cases e with
    | ident x =>
      obtain ⟨y, rfl⟩ := hsort
      obtain rfl : x = y := (String.append_right_inj _).1 hlabel
      rfl
    | int k =>
      obtain ⟨l, rfl⟩ := hsort
      obtain rfl : k = l := Integer.toText_inj ((String.append_right_inj _).1 hlabel)
      rfl
    | str t =>
      obtain ⟨u, rfl⟩ := hsort
      obtain rfl : t = u := Text.quote_inj ((String.append_right_inj _).1 hlabel)
      rfl
    | bool b =>
      obtain ⟨c, rfl⟩ := hsort
      have htext := (String.append_right_inj _).1 hlabel
      cases b <;> cases c <;> first | rfl | exact absurd htext (by decide)
    | unary op operand =>
      obtain ⟨op', operand', rfl⟩ := hsort
      obtain rfl : op = op' := UnaryOp.symbol_inj ((String.append_right_inj _).1 hlabel)
      cases hchildren
      rfl
    | binary op left right =>
      obtain ⟨op', left', right', rfl⟩ := hsort
      obtain rfl : op = op' := BinaryOp.symbol_inj ((String.append_right_inj _).1 hlabel)
      cases hchildren
      rfl
    | cond condition consequence alternative =>
      obtain ⟨condition', consequence', alternative', rfl⟩ := hsort
      cases alternative <;> cases alternative' <;> cases hchildren
      all_goals rfl
    | fn params body =>
      obtain ⟨params', body', rfl⟩ := hsort
      have hparams := (String.append_right_inj _).1 ((String.append_left_inj _).1 hlabel)
      obtain rfl : params = params' := commaSeparated_inj hn.1 hm.1 hparams
      cases hchildren
      rfl
    | call callee args =>
      obtain ⟨callee', args', rfl⟩ := hsort
      obtain ⟨hcallee, hargs⟩ := List.cons.inj hchildren
      obtain rfl : args = args' := List.map_injective_iff.2 (fun _ _ h => expression.inj h) hargs
      cases hcallee
      rfl

end Node

end Monkey

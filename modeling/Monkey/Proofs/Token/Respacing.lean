import Monkey.Proofs.Syntax.Blindness
import Monkey.Proofs.Token.Decomposition
import Monkey.Session

/-! # Layout does not matter

The tokens of a text can be written out again with other layout, as long as some of it
separates any two neighbours. What is read back are the same tokens at other places, so
the program and its value are the same, or the fault is but for the place it names. Only
a quote that nothing closes cannot be moved like that: other layout may let a later quote
close it.
-/

namespace Monkey

/-- Tokens written out one after the other, with layout around them. -/
structure Spacing where
  /-- The layout before the first token. -/
  start : List Char
  /-- The tokens, each with the layout behind it. -/
  parts : List (Token × List Char)
  layout_start : ∀ c ∈ start, c ∈ [' ', '\t', '\r', '\n']
  layout_parts : ∀ part ∈ parts, ∀ c ∈ part.2, c ∈ [' ', '\t', '\r', '\n']
  /-- Only the last token may have no layout behind it. -/
  separate : ∀ part ∈ parts.dropLast, part.2 ≠ []

namespace Spacing

/-- The tokens that are written. -/
def tokens (s : Spacing) : List Token :=
  s.parts.map Prod.fst

/-- The text that is written. -/
def source (s : Spacing) : String :=
  String.ofList (s.start ++ s.parts.flatMap fun part => part.1.literal.toList ++ part.2)

end Spacing

namespace Word

variable {w : Word} {tail rest : List Char}

/-- A word that leads somewhere leads before layout too, unless it is a quote that nothing closes. -/
theorem Leads.of_head (h : w.Leads tail) (hw : w ≠ ⟨.illegal, ['"']⟩)
    (hrest : ∀ c ∈ rest.head?, c ∈ tail.head? ∨ c ∈ [' ', '\t', '\r', '\n']) : w.Leads rest := by
  -- What the words look at is the next character, and they end before one of layout.
  have hends (p : Char → Prop) (htail : ∀ c ∈ tail.head?, ¬p c)
      (hlayout : ¬p ' ' ∧ ¬p '\t' ∧ ¬p '\r' ∧ ¬p '\n') : ∀ c ∈ rest.head?, ¬p c := by
    have hall : ∀ c ∈ [' ', '\t', '\r', '\n'], ¬p c := by simpa using hlayout
    exact fun c hc => (hrest c hc).elim (htail c) (hall c)
  cases h with
  | reserved hk htail => exact .reserved hk (hends _ htail (by decide))
  | name hx htail => exact .name hx (hends _ htail (by decide))
  | numeral hne hds htail => exact .numeral hne hds (hends _ htail (by decide))
  | double hk => exact .double hk
  | closed hk => exact .closed hk
  | half hk htail =>
    refine .half hk fun hhead => hends (· = '=') ?_ (by decide) '=' hhead rfl
    rintro c hc rfl
    exact htail hc
  | string hbody => exact .string hbody
  | unclosed _ => exact absurd rfl hw
  | other hlayout hclass hsign => exact .other hlayout hclass hsign

end Word

namespace Piece

theorem texts_map_layout (cs : List Char) : texts (cs.map layout) = cs := by
  induction cs with
  | nil => rfl
  | cons c cs ih => rw [List.map_cons, texts_cons, ih]; rfl

theorem words_map_layout (cs : List Char) : words (cs.map layout) = [] := by
  induction cs with
  | nil => rfl
  | cons c cs ih => rw [List.map_cons, words_layout, ih]

theorem cut_map_layout {cs rest : List Char} (h : ∀ c ∈ cs, c ∈ [' ', '\t', '\r', '\n']) :
    Cut (cs.map layout) rest := by
  induction cs with
  | nil => trivial
  | cons c cs ih =>
    rw [List.forall_mem_cons] at h
    exact ⟨h.1, ih h.2⟩

/-- The pieces of tokens that have layout behind them. -/
def ofParts (parts : List (Token × List Char)) : List Piece :=
  parts.flatMap fun part => token part.1.word :: part.2.map layout

theorem texts_ofParts (parts : List (Token × List Char)) :
    texts (ofParts parts) = parts.flatMap fun part => part.1.literal.toList ++ part.2 := by
  induction parts with
  | nil => rfl
  | cons part parts ih =>
    rw [ofParts, List.flatMap_cons, List.flatMap_cons, texts_append, texts_cons, texts_map_layout,
      ← ofParts, ih]
    rfl

theorem words_ofParts (parts : List (Token × List Char)) :
    words (ofParts parts) = (parts.map Prod.fst).map Token.word := by
  induction parts with
  | nil => rfl
  | cons part parts ih =>
    rw [ofParts, List.flatMap_cons, words_append, words_token, words_map_layout, ← ofParts, ih]
    rfl

theorem cut_ofParts {parts : List (Token × List Char)}
    (hlead : ∀ part ∈ parts, ∃ tail, part.1.word.Leads tail)
    (hquote : ∀ part ∈ parts, part.1.word ≠ ⟨.illegal, ['"']⟩)
    (hlayout : ∀ part ∈ parts, ∀ c ∈ part.2, c ∈ [' ', '\t', '\r', '\n'])
    (hseparate : ∀ part ∈ parts.dropLast, part.2 ≠ []) : Cut (ofParts parts) [] := by
  induction parts with
  | nil => trivial
  | cons part parts ih =>
    rw [List.forall_mem_cons] at hlead hquote hlayout
    have hrest : Cut (ofParts parts) [] := by
      refine ih hlead.2 hquote.2 hlayout.2 fun other hother => hseparate other ?_
      cases parts with
      | nil => cases hother
      | cons next parts => exact List.mem_cons_of_mem _ hother
    -- What follows the token is layout, or nothing at all.
    have hhead : ∀ c ∈ (part.2 ++ texts (ofParts parts)).head?, c ∈ [' ', '\t', '\r', '\n'] := by
      intro c hc
      cases hgap : part.2 with
      | cons d ds =>
        rw [hgap] at hc
        cases hc
        exact hlayout.1 c (by rw [hgap]; exact List.mem_cons_self)
      | nil =>
        cases parts with
        | nil =>
          rw [hgap] at hc
          cases hc
        | cons next parts => exact absurd hgap (hseparate part List.mem_cons_self)
    obtain ⟨tail, hleads⟩ := hlead.1
    have hfits := hleads.of_head hquote.1 fun c hc => .inr (hhead c hc)
    rw [ofParts, List.flatMap_cons, ← ofParts, List.cons_append, cut_cons, cut_append, texts_append,
      texts_map_layout, List.append_nil]
    exact ⟨hfits, cut_map_layout hlayout.1, hrest⟩

end Piece

namespace Spacing

open Piece

/-- Every token that is spaced out may stand before layout. -/
theorem decomposes {s : Spacing} (hlead : ∀ t ∈ s.tokens, ∃ tail, t.word.Leads tail)
    (hquote : ∀ t ∈ s.tokens, t.word ≠ ⟨.illegal, ['"']⟩) :
    Decomposes s.source.toList (s.start.map layout ++ ofParts s.parts) where
  texts_eq := by
    rw [texts_append, texts_map_layout, texts_ofParts, source, String.toList_ofList]
  cut := by
    refine cut_append.2 ⟨cut_map_layout s.layout_start, ?_⟩
    exact cut_ofParts (fun part hpart => hlead _ (List.mem_map_of_mem hpart))
      (fun part hpart => hquote _ (List.mem_map_of_mem hpart)) s.layout_parts s.separate

end Spacing

/-- Tokens with the same words are the same but for where they stand. -/
theorem Token.map_unplaced_of_map_word {ts us : List Token}
    (h : ts.map Token.word = us.map Token.word) :
    ts.map Token.unplaced = us.map Token.unplaced := by
  have hforget : Token.unplaced = (fun w : Word => ⟨w.kind, String.ofList w.text, .start⟩) ∘
      Token.word := by
    funext t
    simp [Token.unplaced, Token.word]
  rw [hforget, ← List.map_map, ← List.map_map, h]

section SameWords

variable {source other : String}

/-- Texts of the same words spell the same program, or have the same fault in some place. -/
theorem Program.ofSource_of_map_word (h : (tokenize source).map Token.word =
    (tokenize other).map Token.word) :
    (ofSource source).mapError Fault.unplaced = (ofSource other).mapError Fault.unplaced := by
  unfold ofSource
  rw [← ofTokens_unplaced, ← ofTokens_unplaced, Token.map_unplaced_of_map_word h]

/-- Once a text spells a program, only the program decides its value. -/
theorem interpret_of_map_word (h : (tokenize source).map Token.word =
    (tokenize other).map Token.word) (depth : Nat) :
    (interpret depth source).map (Except.mapError Fault.unplaced) =
        (interpret depth other).map (Except.mapError Fault.unplaced) ∧
      ((∃ p, Program.ofSource other = .ok p) →
        interpret depth source = interpret depth other) := by
  have hsame := Program.ofSource_of_map_word h
  unfold interpret Session.executeSource
  cases hs : Program.ofSource source with
  | ok p =>
    cases ho : Program.ofSource other with
    | ok q =>
      rw [hs, ho] at hsame
      cases hsame
      exact ⟨rfl, fun _ => rfl⟩
    | error e =>
      rw [hs, ho] at hsame
      cases hsame
  | error e =>
    cases ho : Program.ofSource other with
    | ok q =>
      rw [hs, ho] at hsame
      cases hsame
    | error e' =>
      rw [hs, ho] at hsame
      constructor
      · exact congrArg (fun r => some (Except.map (fun _ : Program => Value.null) r)) hsame
      · rintro ⟨p, hp⟩
        cases hp

end SameWords

namespace Spacing

open Piece

/-- The tokens of a text, spaced out again, are read back. -/
theorem map_word_tokenize {source : String} {s : Spacing}
    (htokens : s.tokens = (tokenize source).dropLast)
    (hquote : ∀ t ∈ tokenize source, t.kind = .illegal → t.literal ≠ "\"") :
    (tokenize s.source).map Token.word = (tokenize source).map Token.word := by
  obtain ⟨ps, hps⟩ := exists_decomposes source.toList
  have hwords : s.tokens.map Token.word = words ps := by
    rw [htokens, List.map_dropLast, hps.map_word_tokenize, List.dropLast_concat]
  have hdecomposes : Decomposes s.source.toList (s.start.map layout ++ ofParts s.parts) := by
    refine decomposes (fun t ht => ?_) fun t ht hword => ?_
    · refine mem_words_of_cut hps.cut ?_
      rw [← hwords]
      exact List.mem_map_of_mem ht
    · rw [htokens] at ht
      refine hquote t (List.dropLast_subset _ ht) (congrArg Word.kind hword) ?_
      exact String.toList_inj.1 (congrArg Word.text hword)
  rw [hdecomposes.map_word_tokenize, hps.map_word_tokenize, words_append, words_map_layout,
    words_ofParts, ← hwords]
  rfl

/--
Layout does not matter: the tokens of a text written out with other layout are read back as
they are, and the program, its value and the fault are the same, the place in the fault apart.
-/
theorem immaterial {source : String} {s : Spacing}
    (htokens : s.tokens = (tokenize source).dropLast)
    (hquote : ∀ t ∈ tokenize source, t.kind = .illegal → t.literal ≠ "\"") :
    (tokenize s.source).map Token.unplaced = (tokenize source).map Token.unplaced ∧
      (Program.ofSource s.source).mapError Fault.unplaced =
        (Program.ofSource source).mapError Fault.unplaced ∧
      ∀ depth, (interpret depth s.source).map (Except.mapError Fault.unplaced) =
          (interpret depth source).map (Except.mapError Fault.unplaced) ∧
        ((∃ p, Program.ofSource source = .ok p) →
          interpret depth s.source = interpret depth source) := by
  have hwords := map_word_tokenize htokens hquote
  exact ⟨Token.map_unplaced_of_map_word hwords, Program.ofSource_of_map_word hwords,
    interpret_of_map_word hwords⟩

/-- A comparison with a string of two lines, spread over lines of its own. -/
theorem immaterial_lines :
    let source := "\"a\n b\"==1"
    ∃ s : Spacing, s.source = "\n\"a\n b\" ==\r\n\t1" ∧ s.tokens = (tokenize source).dropLast ∧
      (∀ t ∈ tokenize source, t.kind = .illegal → t.literal ≠ "\"") ∧
      (∃ p, Program.ofSource source = .ok p) ∧
      (tokenize s.source).map Token.unplaced = (tokenize source).map Token.unplaced ∧
      interpret 9 s.source = interpret 9 source := by
  intro source
  have htokenize : tokenize source = [⟨.string, "\"a\n b\"", ⟨1, 1⟩⟩,
      ⟨.eq, "==", ⟨2, 4⟩⟩, ⟨.int, "1", ⟨2, 6⟩⟩, ⟨.eof, "", ⟨2, 7⟩⟩] := by
    decide +kernel
  let s : Spacing := {
    start := ['\n']
    parts := [(⟨.string, "\"a\n b\"", ⟨1, 1⟩⟩, [' ']), (⟨.eq, "==", ⟨2, 4⟩⟩, ['\r', '\n', '\t']),
      (⟨.int, "1", ⟨2, 6⟩⟩, [])]
    layout_start := by simp
    layout_parts := by simp
    separate := by simp }
  have htokens : s.tokens = (tokenize source).dropLast := by
    rw [htokenize]
    rfl
  have hquote : ∀ t ∈ tokenize source, t.kind = .illegal → t.literal ≠ "\"" := by
    rw [htokenize]
    decide
  have hparses : ∃ p, Program.ofSource source = .ok p := by
    refine ⟨[.expr (.binary .eq (.str "a\n b") (.int 1))], ?_⟩
    rw [Program.ofSource, htokenize]
    rfl
  obtain ⟨hsame, -, hinterpret⟩ := immaterial htokens hquote
  exact ⟨s, rfl, htokens, hquote, hparses, hsame, (hinterpret 9).2 hparses⟩

end Spacing

end Monkey

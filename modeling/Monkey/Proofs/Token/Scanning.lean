import Mathlib.Data.List.Induction
import Monkey.Proofs.Token.Decomposition
import Monkey.Token.Scan

/-! # One pass reads the tokens

The head that scans a text stands, after every step, right behind what it has read, and
its line and column are those of reading the same characters one by one: also when it
jumps behind a string, or gives up the search for a quote that is not there. So one pass
reads the tokens of the text, and the place of each counts the lines and the characters
before it.
-/

namespace Monkey

/-- The place behind the first `i` characters of a text. -/
def Position.ofOffset (cs : List Char) (i : Nat) : Position where
  line := 1 + (cs.take i).count '\n'
  column := 1 + ((cs.take i).reverse.takeWhile (· ≠ '\n')).length

/-- The token of a word that begins at the offset `i` of a text. -/
def Word.tokenAt (cs : List Char) (i : Nat) (w : Word) : Token :=
  ⟨w.kind, String.ofList w.text, .ofOffset cs i⟩

theorem Position.after_start (cs : List Char) :
    start.after cs = ⟨1 + cs.count '\n', 1 + (cs.reverse.takeWhile (· ≠ '\n')).length⟩ := by
  induction cs using List.reverseRecOn with
  | nil => rfl
  | append_singleton cs c ih =>
    rw [after_append, ih, after_cons, after_nil, advance]
    by_cases hc : c = '\n'
    · simp [hc, Nat.add_assoc]
    · simp [hc, Nat.add_assoc]

theorem Position.ofOffset_append (cs ds : List Char) :
    ofOffset (cs ++ ds) cs.length = start.after cs := by
  rw [after_start, ofOffset, List.take_left]

namespace Piece

/-- The words among pieces that begin at the offset `i`, each with its own offset. -/
def starts : Nat → List Piece → List (Nat × Word)
  | _, [] => []
  | i, layout _ :: ps => starts (i + 1) ps
  | i, token w :: ps => (i, w) :: starts (i + w.text.length) ps

theorem tokensAt_eq_map (pre : List Char) (ps : List Piece) :
    tokensAt (Position.start.after pre) ps =
      (starts pre.length ps).map fun s => s.2.tokenAt (pre ++ texts ps) s.1 := by
  induction ps generalizing pre with
  | nil => rfl
  | cons p ps ih =>
    cases p with
    | layout c =>
      have hrest := ih (pre ++ [c])
      rw [Position.after_append, List.length_append, List.append_assoc] at hrest
      exact hrest
    | token w =>
      have hrest := ih (pre ++ w.text)
      rw [Position.after_append, List.length_append, List.append_assoc] at hrest
      rw [tokensAt, hrest, starts, List.map_cons, Word.tokenAt, Position.ofOffset_append]
      rfl

/-- At the offset of a word stands its text. -/
theorem isPrefix_of_mem_starts (pre : List Char) {ps : List Piece} {s : Nat × Word}
    (hs : s ∈ starts pre.length ps) : s.2.text <+: (pre ++ texts ps).drop s.1 := by
  induction ps generalizing pre with
  | nil => cases hs
  | cons p ps ih =>
    have hrest (h : s ∈ starts (pre ++ p.text).length ps) :
        s.2.text <+: (pre ++ texts (p :: ps)).drop s.1 := by
      rw [texts_cons, ← List.append_assoc]
      exact ih _ h
    cases p with
    | layout c => exact hrest (by rwa [List.length_append])
    | token w =>
      obtain rfl | hs := List.mem_cons.1 hs
      · rw [List.drop_left]
        exact List.prefix_append _ _
      · exact hrest (by rwa [List.length_append])

end Piece

namespace Lexer.Scan

/-! ## The search for a closing quote -/

theorem getElem_of_toList {source : Array Char} {pre rest : List Char} {c : Char} {i : Nat}
    (h : source.toList = pre ++ c :: rest) (hi : i = pre.length) :
    ∃ hlt : i < source.size, source[i] = c := by
  obtain rfl : source = (pre ++ c :: rest).toArray := Array.toList_inj.1 h
  subst hi
  exact ⟨by simp, by simp⟩

namespace Search

/-- Whether a search that set out from a place, at the index `first`, has reached the place `p`. -/
def Reaches (f : Search) (origin : Position) (first : Nat) (p : Position) : Prop :=
  match f.lastFeed with
  | none => f.lines = 0 ∧ first ≤ f.index ∧ p = ⟨origin.line, origin.column + (f.index - first)⟩
  | some i => i < f.index ∧ p = ⟨origin.line + f.lines, f.index - i⟩

theorem Reaches.pass {f : Search} {origin p : Position} {first : Nat}
    (h : f.Reaches origin first p) (c : Char) :
    (f.pass c).Reaches origin first (p.advance c) := by
  obtain ⟨index, lines, lastFeed⟩ := f
  by_cases hc : c = '\n'
  · rw [Search.pass, if_pos hc, Position.advance, if_pos hc]
    refine ⟨Nat.lt_succ_self index, ?_⟩
    have hcolumn : index + 1 - index = 1 := Nat.add_sub_cancel_left index 1
    have hline : p.line + 1 = origin.line + (lines + 1) := by
      cases lastFeed with
      | none =>
        obtain ⟨(rfl : lines = 0), -, rfl⟩ := h
        rfl
      | some i =>
        obtain ⟨-, rfl⟩ := h
        rfl
    rw [hcolumn, hline]
  · rw [Search.pass, if_neg hc, Position.advance, if_neg hc]
    cases lastFeed with
    | none =>
      obtain ⟨hlines, (hle : first ≤ index), rfl⟩ := h
      refine ⟨hlines, Nat.le_succ_of_le hle, ?_⟩
      rw [Nat.succ_sub hle]
      rfl
    | some i =>
      obtain ⟨(hlt : i < index), rfl⟩ := h
      refine ⟨Nat.lt_succ_of_lt hlt, ?_⟩
      rw [Nat.succ_sub (Nat.le_of_lt hlt)]

/-- The search passes over the body of a string, and stops at the quote behind it. -/
theorem run_of_body {source : Array Char} {body tail : List Char} (hbody : StringBody body) :
    ∀ (f : Search) (pre : List Char) {origin p : Position} {first : Nat},
      source.toList = pre ++ (body ++ '"' :: tail) → f.index = pre.length →
      f.Reaches origin first p →
      (f.run source).index = f.index + body.length ∧
        (f.run source).Reaches origin first (p.after body) := by
  induction hbody with
  | nil =>
    intro f pre _ _ _ hsource hindex hp
    obtain ⟨hlt, hquote⟩ := getElem_of_toList hsource hindex
    rw [run, dif_pos hlt, if_pos hquote]
    exact ⟨rfl, hp⟩
  | @plain c cs hquote hslash _ ih =>
    intro f pre _ _ _ hsource hindex hp
    obtain ⟨hlt, hc⟩ := getElem_of_toList hsource hindex
    obtain ⟨hstop, hreaches⟩ :=
      ih (f.pass c) (pre ++ [c]) (by simpa using hsource) (by simp [hindex]) (hp.pass c)
    rw [index_pass, Nat.add_right_comm] at hstop
    rw [run, dif_pos hlt, if_neg (by rwa [hc]), dif_neg (by rw [hc]; exact fun h => hslash h.1), hc]
    exact ⟨hstop, hreaches⟩
  | @pair c cs _ ih =>
    intro f pre _ _ _ hsource hindex hp
    obtain ⟨hlt, hslash⟩ := getElem_of_toList hsource hindex
    have hsource' : source.toList = pre ++ ['\\'] ++ c :: (cs ++ '"' :: tail) := by
      simpa using hsource
    obtain ⟨hlt', hc⟩ : ∃ hlt' : f.index + 1 < source.size, source[f.index + 1] = c :=
      getElem_of_toList hsource' (by simp [hindex])
    obtain ⟨hstop, hreaches⟩ := ih ((f.pass '\\').pass c) (pre ++ ['\\', c])
      (by simpa using hsource) (by simp [hindex]) ((hp.pass '\\').pass c)
    rw [index_pass, index_pass, Nat.add_right_comm, Nat.add_right_comm f.index] at hstop
    rw [run, dif_pos hlt, if_neg (by rw [hslash]; decide), dif_pos ⟨hslash, hlt'⟩, hc]
    exact ⟨hstop, hreaches⟩

theorem drop_eq_getElem_cons {source : Array Char} {i : Nat} (h : i < source.size) :
    source.toList.drop i = source[i] :: source.toList.drop (i + 1) := by
  rw [List.drop_eq_getElem_cons (by simpa using h), Array.getElem_toList]

/-- A search that stops before the end has passed over the body of a string. -/
theorem body_of_run {source : Array Char} (f : Search) (h : (f.run source).index < source.size) :
    ∃ body tail, StringBody body ∧ source.toList.drop f.index = body ++ '"' :: tail := by
  fun_induction run source f with
  | case1 f hlt hquote =>
    exact ⟨[], _, .nil, by rw [drop_eq_getElem_cons hlt, hquote, List.nil_append]⟩
  | case2 f hlt hquote hpair ih =>
    obtain ⟨body, tail, hbody, hdrop⟩ := ih h
    simp only [index_pass] at hdrop
    have hlt' := hpair.2
    have hslash := hpair.1
    refine ⟨'\\' :: source[f.index + 1] :: body, tail, .pair hbody, ?_⟩
    rw [drop_eq_getElem_cons hlt, drop_eq_getElem_cons hlt', hdrop, hslash]
    rfl
  | case3 f hlt hquote hpair ih =>
    obtain ⟨body, tail, hbody, hdrop⟩ := ih h
    rw [index_pass] at hdrop
    refine ⟨source[f.index] :: body, tail, .plain hquote (fun hslash => ?_) hbody, ?_⟩
    · -- The last character of a text has no quote behind it.
      have hlast : source.size ≤ f.index + 1 := Nat.le_of_not_lt fun hlt' => hpair ⟨hslash, hlt'⟩
      have hnil : source.toList.drop (f.index + 1) = [] := by simpa using hlast
      simp [hnil] at hdrop
    · rw [drop_eq_getElem_cons hlt, hdrop]
      rfl
  | case4 f hge => exact absurd h hge

end Search

/-! ## Where the head stands -/

variable {s : Scan} {ts : List Token} {pre text rest : List Char}

/-- Whether a head has read `pre`, which gave the tokens `ts`, and `rest` is left of its text. -/
structure Stands (s : Scan) (ts : List Token) (pre rest : List Char) : Prop where
  source : s.source.toList = pre ++ rest
  tokens : s.tokens.toList = ts
  current : s.current = pre.length
  place : s.place = Position.start.after pre

/-- Whether a head has read `text` of a token that stands behind `pre`. -/
structure Reads (s : Scan) (ts : List Token) (pre text rest : List Char) : Prop
    extends Stands s ts (pre ++ text) rest where
  start : s.start = pre.length
  startPlace : s.startPlace = Position.start.after pre

theorem Stands.mark (h : s.Stands ts pre rest) : s.mark.Reads ts pre [] rest where
  source := by
    rw [List.append_nil]
    exact h.source
  tokens := h.tokens
  current := by
    rw [List.append_nil]
    exact h.current
  place := by
    rw [List.append_nil]
    exact h.place
  start := h.current
  startPlace := h.place

namespace Reads

theorem advance {c : Char} (h : s.Reads ts pre text (c :: rest)) (hc : c ≠ '\n') :
    s.advance.Reads ts pre (text ++ [c]) rest where
  source := by
    rw [← List.append_assoc, List.append_assoc]
    exact h.source
  tokens := h.tokens
  current := by simp [Scan.advance, h.current, Nat.add_assoc]
  place := by
    rw [← List.append_assoc, Position.after_append, ← h.place]
    simp [Scan.advance, Position.advance, hc]
  start := h.start
  startPlace := h.startPlace

theorem advanceWhile {p : Char → Bool} (h : s.Reads ts pre text rest) (hp : p '\n' = false) :
    (s.advanceWhile p).Reads ts pre (text ++ rest.takeWhile p) (rest.dropWhile p) := by
  induction rest generalizing s text with
  | nil =>
    have hend : ¬s.current < s.source.size := by
      rw [h.current, ← Array.length_toList, h.source]
      simp
    rw [Scan.advanceWhile, dif_neg hend]
    simpa using h
  | cons c cs ih =>
    obtain ⟨hlt, hc⟩ := getElem_of_toList h.source h.current
    rw [Scan.advanceWhile, dif_pos hlt, hc]
    by_cases hpc : p c = true
    · have hfeed : c ≠ '\n' := by
        rintro rfl
        rw [hp] at hpc
        cases hpc
      simpa [hpc] using ih (h.advance hfeed)
    · simpa [hpc] using h

theorem covered (h : s.Reads ts pre text rest) : s.covered = text := by
  rw [Scan.covered, Array.toList_extract, h.source, h.start, h.current]
  simp [List.extract_eq_take_drop]

theorem emit (h : s.Reads ts pre text rest) (k : Token.Kind) :
    (s.emit k).Stands (ts ++ [⟨k, String.ofList text, Position.start.after pre⟩]) (pre ++ text)
      rest where
  source := h.source
  tokens := by simp [Scan.emit, h.tokens, h.covered, h.startPlace]
  current := h.current
  place := h.place

/-- The jump behind a string ends where reading it would. -/
theorem jump {body : List Char} {found : Search}
    (h : s.Reads ts pre ['"'] (body ++ '"' :: rest))
    (hindex : found.index = s.current + body.length)
    (hfound : found.Reaches s.place s.current (s.place.after body)) :
    (s.jump found).Reads ts pre ('"' :: (body ++ ['"'])) rest where
  source := by
    have hsource : s.source.toList = pre ++ '"' :: (body ++ ['"']) ++ rest := by
      simpa using h.source
    exact hsource
  tokens := h.tokens
  current := by
    have hcurrent : (s.jump found).current = s.current + body.length + 1 :=
      congrArg (· + 1) hindex
    rw [hcurrent, h.current]
    simp only [List.length_append, List.length_cons, List.length_nil]
    omega
  place := by
    have hplace : (s.jump found).place = (s.place.after body).advance '"' := by
      have hstart : s.current = s.start + 1 := by
        rw [h.current, h.start]
        simp
      obtain ⟨index, lines, lastFeed⟩ := found
      cases lastFeed with
      | none =>
        obtain ⟨-, (hle : s.current ≤ index), hp⟩ := hfound
        have hcolumn : index + 1 - s.start - 1 = index - s.current + 1 := by omega
        rw [hp]
        simp [Scan.jump, Position.advance, hcolumn, Nat.add_assoc]
      | some i =>
        obtain ⟨hlt, hp⟩ := hfound
        have hcolumn : index + 1 - i = index - i + 1 := Nat.succ_sub (Nat.le_of_lt hlt)
        rw [hp]
        simp [Scan.jump, Position.advance, hcolumn]
    rw [hplace, h.place]
    simp [Position.after_append]
  start := h.start
  startPlace := h.startPlace

theorem string {body : List Char} (h : s.Reads ts pre ['"'] (body ++ '"' :: rest))
    (hbody : StringBody body) :
    s.string.Stands
      (ts ++ [⟨.string, String.ofList ('"' :: (body ++ ['"'])), Position.start.after pre⟩])
      (pre ++ '"' :: (body ++ ['"'])) rest := by
  have hfirst : Search.Reaches ⟨s.current, 0, none⟩ s.place s.current s.place :=
    ⟨rfl, Nat.le_refl _, by simp⟩
  obtain ⟨hindex, hfound⟩ := Search.run_of_body hbody _ _ h.source h.current hfirst
  have hlt : (Search.run s.source ⟨s.current, 0, none⟩).index < s.source.size := by
    rw [hindex, h.current, ← Array.length_toList, h.source]
    simp
    omega
  rw [Scan.string, if_pos hlt]
  exact (h.jump hindex hfound).emit .string

/-- Nothing of a search that is given up is left. -/
theorem unclosed (h : s.Reads ts pre ['"'] rest)
    (hrest : ∀ body tail, StringBody body → rest ≠ body ++ '"' :: tail) :
    s.string.Stands (ts ++ [⟨.illegal, String.ofList ['"'], Position.start.after pre⟩])
      (pre ++ ['"']) rest := by
  have hend : ¬(Search.run s.source ⟨s.current, 0, none⟩).index < s.source.size := by
    intro hlt
    obtain ⟨body, tail, hbody, hdrop⟩ := Search.body_of_run _ hlt
    refine hrest body tail hbody ?_
    rw [← hdrop, h.source, h.current, List.drop_left]
  rw [Scan.string, if_neg hend]
  exact h.emit .illegal

end Reads

theorem Stands.next? (h : s.Stands ts pre rest) : s.next? = rest.head? := by
  rw [Scan.next?, ← Array.getElem?_toList, h.source, h.current,
    List.getElem?_append_right (Nat.le_refl _), Nat.sub_self, List.head?_eq_getElem?]

/-! ## One step, and all of them -/

/-- A step over layout gives no token. -/
theorem Stands.step_layout {c : Char} (h : s.Stands ts pre (c :: rest))
    (hc : isLayout c = true) : (s.step c).Stands ts (pre ++ [c]) rest := by
  by_cases hfeed : c = '\n'
  · subst hfeed
    rw [step, if_pos rfl]
    exact
      { source := by
          have hsource : s.source.toList = pre ++ ['\n'] ++ rest := by simpa using h.source
          exact hsource
        tokens := h.tokens
        current := by
          have hcurrent : s.current + 1 = (pre ++ ['\n']).length := by simp [h.current]
          exact hcurrent
        place := by
          rw [Position.after_append, ← h.place]
          rfl }
  · rw [step, if_neg hfeed, if_pos hc]
    exact (h.mark.advance hfeed).toStands

/-- Any other step gives the token that the lexer cuts off. -/
theorem Stands.step_token {c : Char} {cs : List Char} (h : s.Stands ts pre (c :: cs))
    (hc : isLayout c = false) :
    (s.step c).Stands
      (ts ++ [⟨(lexeme c cs).kind, String.ofList (lexeme c cs).text, Position.start.after pre⟩])
      (pre ++ (lexeme c cs).text) (lexeme c cs).rest := by
  have hfeed : c ≠ '\n' := by
    rintro rfl
    cases hc
  have hread : s.mark.advance.Reads ts pre [c] cs := h.mark.advance hfeed
  have hnext : s.mark.advance.next? = cs.head? := hread.toStands.next?
  rw [step, if_neg hfeed, if_neg (by simp [hc])]
  by_cases hquote : c = '"'
  · subst hquote
    rw [if_pos rfl]
    cases hclosing : closing? cs with
    | some found =>
      obtain ⟨closed, rest⟩ := found
      obtain ⟨body, hbody, rfl⟩ := body_of_closing? hclosing
      rw [← closing?_append hclosing, List.append_assoc] at hread ⊢
      rw [List.singleton_append, lexeme_string hbody]
      exact hread.string hbody
    | none =>
      have hunclosed := unclosed_of_closing? hclosing
      rw [lexeme_unclosed hunclosed]
      exact hread.unclosed hunclosed
  rw [if_neg hquote]
  by_cases hdigit : c.isDigit = true
  · have hlexeme : lexeme c cs =
        ⟨.int, c :: cs.takeWhile Char.isDigit, cs.dropWhile Char.isDigit⟩ := by
      simp [lexeme, not_isWordStart_of_isDigit hdigit, hdigit]
    rw [if_pos hdigit, hlexeme]
    exact (hread.advanceWhile (by decide)).emit .int
  rw [if_neg hdigit]
  by_cases hstart : isWordStart c = true
  · have hword := hread.advanceWhile (p := isWordRest) (by decide)
    have hlexeme : lexeme c cs = ⟨wordKind (c :: cs.takeWhile isWordRest),
        c :: cs.takeWhile isWordRest, cs.dropWhile isWordRest⟩ := by
      simp [lexeme, hstart]
    rw [if_pos hstart, hlexeme]
    dsimp only
    rw [hword.covered]
    exact hword.emit _
  rw [if_neg hstart]
  by_cases heq : c = '=' ∧ s.mark.advance.next? = some '='
  · rw [if_pos heq]
    obtain ⟨rfl, hhead⟩ := heq
    obtain ⟨rest, rfl⟩ := List.head?_eq_some_iff.1 (hnext.symm.trans hhead)
    exact (hread.advance (by decide)).emit .eq
  rw [if_neg heq]
  by_cases hnot : c = '!' ∧ s.mark.advance.next? = some '='
  · rw [if_pos hnot]
    obtain ⟨rfl, hhead⟩ := hnot
    obtain ⟨rest, rfl⟩ := List.head?_eq_some_iff.1 (hnext.symm.trans hhead)
    exact (hread.advance (by decide)).emit .notEq
  have hlexeme : lexeme c cs = ⟨(single? c).getD .illegal, [c], cs⟩ := by
    unfold lexeme
    rw [if_neg hstart, if_neg hdigit, if_neg hquote]
    split
    · exact absurd ⟨rfl, hnext⟩ heq
    · exact absurd ⟨rfl, hnext⟩ hnot
    · rfl
  rw [if_neg hnot, hlexeme]
  exact hread.emit _

/-- Where the head stands, what is left of the text gives the tokens that are left. -/
theorem Stands.run (h : s.Stands ts pre rest) :
    (s.run.mark.emit .eof).tokens.toList = ts ++ tokensFrom (Position.start.after pre) rest := by
  fun_induction Scan.run s generalizing ts pre rest with
  | case1 s hlt ih =>
    cases rest with
    | nil =>
      rw [h.current, ← Array.length_toList, h.source, List.append_nil] at hlt
      exact absurd hlt (Nat.lt_irrefl _)
    | cons c cs =>
      obtain ⟨_, hc⟩ := getElem_of_toList h.source h.current
      rw [hc] at ih
      rw [tokensFrom]
      split
      · next hlayout =>
        rw [hc, ih (h.step_layout hlayout), Position.after_append]
        rfl
      · next hlayout =>
        rw [hc, ih (h.step_token (Bool.eq_false_iff.2 hlayout)), Position.after_append]
        simp
  | case2 s hge =>
    cases rest with
    | cons c cs => exact absurd (getElem_of_toList h.source h.current).1 hge
    | nil =>
      rw [(h.mark.emit .eof).tokens, tokensFrom]
      rfl

end Lexer.Scan

theorem Lexer.scan_eq_tokenize (source : String) : scan source = tokenize source := by
  have hfirst : (Scan.ofSource source).Stands [] [] source.toList := ⟨rfl, rfl, rfl, rfl⟩
  exact hfirst.run

open Piece in
/--
One pass reads the tokens of a text. Each of them stands at the offset where the pieces of the text
have its word, and its place counts the line feeds before that offset, and the characters since the
last of them; so does the end of the text.
-/
theorem Lexer.scan_places (source : String) :
    scan source = tokenize source ∧ ∃ ps, Decomposes source.toList ps ∧
      (∀ s ∈ starts 0 ps, s.2.text <+: source.toList.drop s.1) ∧
      scan source = ((starts 0 ps).map fun s => s.2.tokenAt source.toList s.1) ++
        [⟨.eof, "", .ofOffset source.toList source.toList.length⟩] := by
  obtain ⟨ps, htexts, hcut⟩ := exists_decomposes source.toList
  refine ⟨scan_eq_tokenize source, ps, ⟨htexts, hcut⟩, fun s hs => ?_, ?_⟩
  · rw [← htexts]
    exact isPrefix_of_mem_starts [] hs
  · have hplaces : tokensAt .start ps =
        (starts 0 ps).map fun s => s.2.tokenAt source.toList s.1 := by
      rw [← htexts]
      exact tokensAt_eq_map [] ps
    have hend : Position.ofOffset source.toList source.toList.length =
        Position.start.after source.toList := by
      simpa using Position.ofOffset_append source.toList []
    rw [scan_eq_tokenize, tokenize, hend, ← hplaces, ← htexts]
    exact tokensFrom_texts hcut .start

/-- A string that goes over a line, then a search that is given up at the end of the text. -/
example : (Lexer.scan "\"a\\\n\" \"b").map Token.position = [⟨1, 1⟩, ⟨2, 3⟩, ⟨2, 4⟩, ⟨2, 5⟩] := by
  cbv

end Monkey

import Monkey.Token.Lexer

/-! # Scanning in one pass

The tokens of a text, read by a head that moves over its characters and keeps count of
lines and columns on its way. A character is one column, and a line feed between tokens
starts the next line. A string is found by a search that looks ahead of the head: if a
quote closes it the head jumps behind that quote, to the place that the line feeds met
on the search give; if none does the search is given up, and the head stays.
-/

namespace Monkey.Lexer

/-- A head over a text, with the tokens that it has read. -/
structure Scan where
  source : Array Char
  tokens : Array Token
  /-- The index of the first character of the present token. -/
  start : Nat
  /-- The index of the next character. -/
  current : Nat
  /-- The place of the next character. -/
  place : Position
  /-- The place of the first character of the present token. -/
  startPlace : Position

namespace Scan

/-- A head before the first character of a text. -/
def ofSource (source : String) : Scan where
  source := source.toList.toArray
  tokens := #[]
  start := 0
  current := 0
  place := .start
  startPlace := .start

/-- The next character. -/
def next? (s : Scan) : Option Char :=
  s.source[s.current]?

/-- Moves over the next character, which is taken to be one column wide. -/
def advance (s : Scan) : Scan :=
  { s with current := s.current + 1, place := ⟨s.place.line, s.place.column + 1⟩ }

/-- Moves over the next characters as long as they are of a class. -/
def advanceWhile (p : Char → Bool) (s : Scan) : Scan :=
  if h : s.current < s.source.size then
    if p s.source[s.current] then s.advance.advanceWhile p else s
  else s
termination_by s.source.size - s.current
decreasing_by
  simp only [advance]
  omega

/-- Begins a token at the next character. -/
def mark (s : Scan) : Scan :=
  { s with start := s.current, startPlace := s.place }

/-- The characters of the present token. -/
def covered (s : Scan) : List Char :=
  (s.source.extract s.start s.current).toList

/-- Ends the present token, which is of this kind. -/
def emit (s : Scan) (kind : Token.Kind) : Scan :=
  { s with tokens := s.tokens.push ⟨kind, String.ofList s.covered, s.startPlace⟩ }

/-- A search for the quote that closes a string. -/
structure Search where
  /-- The index that the search has reached. -/
  index : Nat
  /-- The number of line feeds that it has met. -/
  lines : Nat
  /-- The index of the last of them. -/
  lastFeed : Option Nat

/-- The search after one more character. -/
def Search.pass (f : Search) (c : Char) : Search :=
  if c = '\n' then ⟨f.index + 1, f.lines + 1, some f.index⟩ else { f with index := f.index + 1 }

@[simp] theorem Search.index_pass (f : Search) (c : Char) : (f.pass c).index = f.index + 1 := by
  unfold pass
  split <;> rfl

/-- Searches on to the closing quote, or to the end of the text. -/
def Search.run (source : Array Char) (f : Search) : Search :=
  if h : f.index < source.size then
    if source[f.index] = '"' then f
    else if h' : source[f.index] = '\\' ∧ f.index + 1 < source.size then
      run source ((f.pass '\\').pass source[f.index + 1])
    else run source (f.pass source[f.index])
  else f
termination_by source.size - f.index
decreasing_by
  all_goals
    simp only [index_pass]
    omega

/-- The head behind the quote that a search has found. -/
def jump (s : Scan) (found : Search) : Scan :=
  let current := found.index + 1
  let place : Position :=
    match found.lastFeed with
    | some i => ⟨s.place.line + found.lines, current - i⟩
    | none => ⟨s.place.line, s.place.column + (current - s.start - 1)⟩
  { s with current, place }

/-- Reads the rest of a string, or only its quote if nothing closes it. -/
def string (s : Scan) : Scan :=
  let found := Search.run s.source ⟨s.current, 0, none⟩
  if found.index < s.source.size then (s.jump found).emit .string else s.emit .illegal

/-- Reads the next token, which begins with `c`, or the next character of layout. -/
def step (s : Scan) (c : Char) : Scan :=
  let s := s.mark.advance
  if c = '\n' then
    { s with place := ⟨s.place.line + 1, 1⟩ }
  else if isLayout c then
    s
  else if c = '"' then
    s.string
  else if c.isDigit then
    (s.advanceWhile Char.isDigit).emit .int
  else if isWordStart c then
    let s := s.advanceWhile isWordRest
    s.emit (wordKind s.covered)
  else if c = '=' ∧ s.next? = some '=' then
    s.advance.emit .eq
  else if c = '!' ∧ s.next? = some '=' then
    s.advance.emit .notEq
  else
    s.emit ((single? c).getD .illegal)

theorem source_advanceWhile (p : Char → Bool) (s : Scan) :
    (s.advanceWhile p).source = s.source ∧ s.current ≤ (s.advanceWhile p).current := by
  fun_induction advanceWhile p s with
  | case1 s _ _ ih => exact ⟨ih.1, Nat.le_of_succ_le ih.2⟩
  | case2 | case3 => exact ⟨rfl, Nat.le_refl _⟩

theorem index_le_run (source : Array Char) (f : Search) : f.index ≤ (f.run source).index := by
  fun_induction Search.run source f with
  | case1 | case4 => exact Nat.le_refl _
  | case2 f _ _ _ ih | case3 f _ _ _ ih =>
    simp only [Search.index_pass] at ih
    omega

theorem source_string (s : Scan) : s.string.source = s.source ∧ s.current ≤ s.string.current := by
  have hle := index_le_run s.source ⟨s.current, 0, none⟩
  unfold string
  dsimp only
  split
  · exact ⟨rfl, Nat.le_succ_of_le hle⟩
  · exact ⟨rfl, Nat.le_refl _⟩

/-- A step stays in the text and moves forward. -/
theorem source_step (s : Scan) (c : Char) :
    (s.step c).source = s.source ∧ s.current < (s.step c).current := by
  have hstring := source_string s.mark.advance
  have hdigits := source_advanceWhile Char.isDigit s.mark.advance
  have hword := source_advanceWhile isWordRest s.mark.advance
  unfold step
  dsimp only
  split
  · exact ⟨rfl, Nat.lt_succ_self _⟩
  split
  · exact ⟨rfl, Nat.lt_succ_self _⟩
  split
  · exact hstring
  split
  · exact hdigits
  split
  · exact hword
  split
  · exact ⟨rfl, Nat.lt_succ_of_lt (Nat.lt_succ_self _)⟩
  split
  · exact ⟨rfl, Nat.lt_succ_of_lt (Nat.lt_succ_self _)⟩
  · exact ⟨rfl, Nat.lt_succ_self _⟩

/-- Reads all that is left of the text. -/
def run (s : Scan) : Scan :=
  if h : s.current < s.source.size then (s.step s.source[s.current]).run else s
termination_by s.source.size - s.current
decreasing_by
  obtain ⟨hsource, hlt⟩ := s.source_step s.source[s.current]
  rw [hsource]
  omega

end Scan

/-- The tokens of a text, read in one pass. -/
def scan (source : String) : List Token :=
  ((Scan.ofSource source).run.mark.emit .eof).tokens.toList

end Monkey.Lexer

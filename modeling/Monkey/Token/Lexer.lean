import Monkey.Token.Basic

/-! # Lexical analysis

`tokenize` splits a text into tokens from left to right and drops the layout
between them. It never fails: a character that begins no token, and a quote
that no later quote closes, become tokens of kind `illegal`. The tokens end
with exactly one `eof`.
-/

namespace Monkey

namespace Lexer

/-- Layout separates tokens and is otherwise dropped. -/
def isLayout (c : Char) : Bool :=
  c == ' ' || c == '\t' || c == '\r' || c == '\n'

/-- An ASCII letter or an underscore begins a word. -/
def isWordStart (c : Char) : Bool :=
  c.isAlpha || c == '_'

/-- A word goes on with ASCII letters, digits and underscores. -/
def isWordRest (c : Char) : Bool :=
  c.isAlphanum || c == '_'

/-- The kind of a word: that of a reserved word, or an identifier. -/
def wordKind (word : List Char) : Token.Kind :=
  (Token.Kind.keyword? (String.ofList word)).getD .ident

/--
The text after an opening quote up to and including the quote that closes it, and what follows.
A backslash takes the next character with it, so an escaped quote closes nothing.
-/
def closing? : List Char → Option (List Char × List Char)
  | [] => none
  | '"' :: cs => some (['"'], cs)
  | '\\' :: c :: cs => (closing? cs).map fun (body, rest) => ('\\' :: c :: body, rest)
  | c :: cs => (closing? cs).map fun (body, rest) => (c :: body, rest)

/-- The kind of a character that is a token of its own. -/
def single? : Char → Option Token.Kind
  | '(' => some .lparen
  | ')' => some .rparen
  | '{' => some .lbrace
  | '}' => some .rbrace
  | ',' => some .comma
  | ';' => some .semicolon
  | '+' => some .plus
  | '-' => some .minus
  | '*' => some .asterisk
  | '/' => some .slash
  | '<' => some .lt
  | '>' => some .gt
  | '=' => some .assign
  | '!' => some .bang
  | _ => none

/-- A token's kind and text, and the text that follows it. -/
structure Lexeme where
  kind : Token.Kind
  text : List Char
  rest : List Char
  deriving DecidableEq, Repr

/-- The token that begins with `c`, a character other than layout, in the text `c :: cs`. -/
def lexeme (c : Char) (cs : List Char) : Lexeme :=
  if isWordStart c then
    let word := c :: cs.takeWhile isWordRest
    ⟨wordKind word, word, cs.dropWhile isWordRest⟩
  else if c.isDigit then
    ⟨.int, c :: cs.takeWhile Char.isDigit, cs.dropWhile Char.isDigit⟩
  else if c = '"' then
    match closing? cs with
    | some (body, rest) => ⟨.string, c :: body, rest⟩
    | none => ⟨.illegal, [c], cs⟩
  else match c, cs with
    | '=', '=' :: rest => ⟨.eq, ['=', '='], rest⟩
    | '!', '=' :: rest => ⟨.notEq, ['!', '='], rest⟩
    | c, cs => ⟨(single? c).getD .illegal, [c], cs⟩

theorem closing?_append {cs body rest : List Char} (h : closing? cs = some (body, rest)) :
    body ++ rest = cs := by
  fun_induction closing? cs generalizing body with
  | case1 => simp at h
  | case2 cs => simp at h; simp [← h.1, ← h.2]
  | case3 c cs ih =>
    obtain ⟨⟨b, r⟩, hb, he⟩ := Option.map_eq_some_iff.1 h
    cases he
    simp [ih hb]
  | case4 c cs _ _ ih =>
    obtain ⟨⟨b, r⟩, hb, he⟩ := Option.map_eq_some_iff.1 h
    cases he
    simp [ih hb]

/-- A lexeme is cut off the front of the text: nothing is lost or reordered. -/
theorem lexeme_append (c : Char) (cs : List Char) :
    (lexeme c cs).text ++ (lexeme c cs).rest = c :: cs := by
  unfold lexeme
  split
  · simp
  split
  · simp
  split
  · split
    · next h => simp [closing?_append h]
    · simp
  split <;> simp

theorem lexeme_text_ne_nil (c : Char) (cs : List Char) : (lexeme c cs).text ≠ [] := by
  unfold lexeme
  split
  · simp
  split
  · simp
  split
  · split <;> simp
  split <;> simp

theorem lexeme_rest_length (c : Char) (cs : List Char) :
    (lexeme c cs).rest.length ≤ cs.length := by
  have h := congrArg List.length (lexeme_append c cs)
  have := List.length_pos_iff.2 (lexeme_text_ne_nil c cs)
  simp only [List.length_append, List.length_cons] at h
  omega

/-- The tokens of a text whose first character stands at `p`. -/
def tokensFrom (p : Position) : List Char → List Token
  | [] => [Token.endOfText p]
  | c :: cs =>
    if isLayout c then
      tokensFrom (p.advance c) cs
    else
      ⟨(lexeme c cs).kind, String.ofList (lexeme c cs).text, p⟩ ::
        tokensFrom (p.after (lexeme c cs).text) (lexeme c cs).rest
termination_by cs => cs.length
decreasing_by
  · simp
  · exact Nat.lt_succ_of_le (lexeme_rest_length c cs)

end Lexer

/-- The tokens of a text; the last one, and only the last, is the end of the text. -/
def tokenize (source : String) : List Token :=
  Lexer.tokensFrom .start source.toList

end Monkey

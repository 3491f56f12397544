import Monkey.Text.Printable
import Monkey.Text.Extending
import Monkey.Text.Ignorable

/-! # Quoted text

The written form of a string: between two quotes, with a backslash before what
would not show as itself. `unquote` reads the escapes that a source text may
use, which are fewer than the ones `quote` writes: it keeps a numeric escape as
it stands.
-/

namespace Monkey.Text

/-- The letter that a backslash puts for a character, where there is one. -/
def escapeLetter? : Char → Option Char
  | '\x00' => some '0'
  | '\t' => some 't'
  | '\r' => some 'r'
  | '\n' => some 'n'
  | '"' => some '"'
  | '\\' => some '\\'
  | _ => none

/-- Whether a character is written as itself when it has no letter. -/
def isPlain (c : Char) : Bool :=
  isPrintable c && !isExtending c && !isIgnorable c

/-- The numeric escape of a character: its code point in lower-case hexadecimal, unpadded. -/
def numericEscape (c : Char) : List Char :=
  ['\\', 'u', '{'] ++ Nat.toDigits 16 c.toNat ++ ['}']

/-- The written form of a character between quotes. -/
def escape (c : Char) : List Char :=
  match escapeLetter? c with
  | some letter => ['\\', letter]
  | none => if isPlain c then [c] else numericEscape c

/-- A text between quotes, with escapes. -/
def quote (s : String) : String :=
  String.ofList ('"' :: s.toList.flatMap escape ++ ['"'])

/-- What a letter after a backslash stands for, where it stands for another character. -/
def letterMeaning? : Char → Option Char
  | 'n' => some '\n'
  | 't' => some '\t'
  | 'r' => some '\r'
  | '"' => some '"'
  | '\\' => some '\\'
  | _ => none

/-- Resolves the escapes of a text; a backslash before anything else is kept with it. -/
def unescape : List Char → List Char
  | [] => []
  | '\\' :: c :: cs =>
    match letterMeaning? c with
    | some d => d :: unescape cs
    | none => '\\' :: c :: unescape cs
  | c :: cs => c :: unescape cs

/-- A text without its two quotes, or the whole text where it does not have both. -/
def stripQuotes : List Char → List Char
  | '"' :: cs => if cs.getLast? = some '"' then cs.dropLast else '"' :: cs
  | cs => cs

/-- The text that a string literal stands for. -/
def unquote (literal : String) : String :=
  String.ofList (unescape (stripQuotes literal.toList))

end Monkey.Text

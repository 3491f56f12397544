import Monkey.Position
import Monkey.Token.Kind

/-! # Tokens

A token is a kind, the text it covers, and the position where that text begins.
-/

namespace Monkey

/-- A token of a text. -/
structure Token where
  kind : Token.Kind
  literal : String
  position : Position
  deriving DecidableEq, Repr

namespace Token

/-- The token that ends a list of tokens. -/
def endOfText (p : Position) : Token := ⟨.eof, "", p⟩

/-- How a token is called in running text: its label and, unless it is the end, its literal. -/
def describe (t : Token) : String :=
  match t.kind with
  | .eof => "end of input"
  | k => k.label ++ " `" ++ t.literal ++ "`"

end Token

end Monkey

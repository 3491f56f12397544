import Monkey.Json.Basic
import Monkey.Token.Basic

/-! # Tokens as JSON

A token is written as a record of its kind, literal, line and column. Reading
checks the type of each member and the range of the position, and no more: the
literal may be any text.
-/

namespace Monkey.Token

/-- The kind that a JSON constant names. -/
def Kind.ofJson? (j : Json) : Option Kind :=
  j.constant?.bind ofName?

/-- The record of a token. -/
def toJson (t : Token) : Json :=
  .obj [("kind", .str t.kind.name), ("literal", .str t.literal),
    ("line", .int t.position.line), ("column", .int t.position.column)]

/-- The token that a record describes. -/
def ofJson? (j : Json) : Option Token := do
  match ← j.record? ["kind", "literal", "line", "column"] with
  | [kind, literal, line, column] =>
    return ⟨← Kind.ofJson? kind, ← literal.str?, ← line.count?, ← column.count?⟩
  | _ => none

/-- The tokens that an array of records describes. -/
def listOfJson? (j : Json) : Option (List Token) :=
  j.arr?.bind fun items => items.mapM ofJson?

end Monkey.Token

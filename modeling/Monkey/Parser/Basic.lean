import Monkey.Fault
import Monkey.Token.Cursor

/-! # Parsers

A parser reads tokens from a cursor and gives a result or a fault; the cursor
then stands where it stopped, also after a fault. Recursive parsers carry a
budget, and a third outcome says that it ran out.
-/

namespace Monkey

/-- A reader of tokens. The outer `Option` is `none` when a budget ran out. -/
abbrev Parser (α : Type) := ExceptT Fault (StateT Token.Cursor Option) α

namespace Parser

variable {α : Type}

/-- Runs a parser from a cursor. -/
def runAt (p : Parser α) (c : Token.Cursor) : Option (Except Fault α × Token.Cursor) :=
  StateT.run (ExceptT.run p) c

/-- The outcome of a parser whose budget is used up. -/
def outOfBudget : Parser α :=
  ExceptT.mk (StateT.lift none)

/-- The current token, which stays to be read. -/
def peek : Parser Token :=
  return (← get).peek

/-- Reads the current token, whatever it is. -/
def advance : Parser Unit :=
  modify Token.Cursor.advance

/-- Fails with a fault about the current token. -/
def refuse (fault : Token → Nat → Fault) : Parser α := do
  let c ← get
  throw (fault c.peek c.index)

/-- Reads the current token if it is of one of these kinds, and fails otherwise. -/
def expect (kinds : List Token.Kind) : Parser Token := do
  let t ← peek
  if t.kind ∈ kinds then
    advance
    return t
  else
    refuse (.unexpectedToken kinds)

/-- Reads the current token if it is of this kind, and says whether it was. -/
def accept (kind : Token.Kind) : Parser Bool := do
  if (← peek).kind = kind then
    advance
    return true
  else
    return false

end Parser

end Monkey

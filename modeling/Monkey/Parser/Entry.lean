import Monkey.Parser.Progress
import Monkey.Token.Lexer

/-! # Parsing as a total function

A parser given the budget that suffices always has a result, so the budget
disappears: a parse is a program or a fault, and the cursor it stopped at.
-/

namespace Monkey

namespace Parser

/-- Parses a program from the cursor to the end of the text. -/
def parse (c : Token.Cursor) : Except Fault Program × Token.Cursor :=
  ((program (budgetAt c)).runAt c).get (program_ends c).isSome

/-- Parses an expression whose operators bind tighter than `level`. -/
def parseExpression (level : Precedence) (c : Token.Cursor) : Except Fault Expr × Token.Cursor :=
  ((expression (budgetAt c) level).runAt c).get (expression_ends level c).isSome

end Parser

/-- The program that a list of tokens spells. -/
def Program.ofTokens (ts : List Token) : Except Fault Program :=
  (Parser.parse (.ofTokens ts)).1

/-- The program that a text spells. -/
def Program.ofSource (source : String) : Except Fault Program :=
  Program.ofTokens (tokenize source)

end Monkey

import Monkey.Environment.Basic
import Monkey.Program.Render
import Monkey.Value.Kind

/-! # Values

What expressions evaluate to. A function is a literal together with the
environment it was evaluated in, and with an identity that no other evaluation
of a literal shares; functions are compared by it and by nothing else.
-/

namespace Monkey

/-- A value. -/
inductive Value
  | null
  | bool (b : Bool)
  | int (n : Integer)
  | str (s : String)
  | function (id : Nat) (params : List String) (body : List Stmt) (captured : Environment Value)

namespace Value

/-- The kind of a value. -/
def kind : Value → Kind
  | null => .null
  | bool _ => .boolean
  | int _ => .integer
  | str _ => .string
  | function .. => .function

/-- Whether two values are equal: functions when they have the same identity. -/
def same : Value → Value → Bool
  | null, null => true
  | bool a, bool b => a == b
  | int m, int n => m == n
  | str s, str t => s == t
  | function i .., function j .. => i == j
  | _, _ => false

instance : BEq Value where
  beq := same

/-- The text of a value. A string stands between quotes as it is, with nothing escaped. -/
def render : Value → String
  | null => "null"
  | bool b => if b then "true" else "false"
  | int n => n.toText
  | str s => "\"" ++ s ++ "\""
  | function _ params body _ => "fn(" ++ commaSeparated params ++ ") " ++ Block.render body

end Value

end Monkey

/-! # Kinds of value

Operators are chosen by the kinds of their operands, and messages name them.
-/

namespace Monkey.Value

/-- What a value is, apart from its content. -/
inductive Kind
  | integer
  | boolean
  | string
  | null
  | function
  deriving DecidableEq, Repr

namespace Kind

/-- Every kind, each once. -/
def all : List Kind :=
  [integer, boolean, string, null, function]

/-- How a kind is called. -/
def name : Kind → String
  | integer => "Integer"
  | boolean => "Boolean"
  | string => "String"
  | null => "Null"
  | function => "Function"

/-- The kind of this name. -/
def ofName? (s : String) : Option Kind :=
  all.find? (·.name = s)

theorem ofName?_name (k : Kind) : ofName? k.name = some k := by
  cases k <;> decide

end Kind

end Monkey.Value

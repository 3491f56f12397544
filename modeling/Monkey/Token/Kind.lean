/-! # Kinds of token

The closed set of token kinds, with the label an error message shows, the name
the serialized form uses, and the words that are reserved.
-/

namespace Monkey.Token

/-- What a token is, apart from its text and place. -/
inductive Kind
  /-- A character that begins no token. -/
  | illegal
  /-- The end of the text. -/
  | eof
  | ident
  | int
  /-- A string literal; its text keeps the quotes. -/
  | string
  | assign
  | plus
  | minus
  | bang
  | asterisk
  | slash
  | lt
  | gt
  | eq
  | notEq
  | comma
  | semicolon
  | lparen
  | rparen
  | lbrace
  | rbrace
  | fnWord
  | letWord
  | returnWord
  | ifWord
  | elseWord
  | trueWord
  | falseWord
  deriving DecidableEq, Repr

namespace Kind

/-- How messages call a kind. -/
def label : Kind → String
  | illegal => "ILLEGAL"
  | eof => "EOF"
  | ident => "IDENT"
  | int => "INT"
  | string => "STRING"
  | assign => "ASSIGN"
  | plus => "PLUS"
  | minus => "MINUS"
  | bang => "BANG"
  | asterisk => "ASTERISK"
  | slash => "SLASH"
  | lt => "LT"
  | gt => "GT"
  | eq => "EQ"
  | notEq => "NOT_EQ"
  | comma => "COMMA"
  | semicolon => "SEMICOLON"
  | lparen => "LPAREN"
  | rparen => "RPAREN"
  | lbrace => "LBRACE"
  | rbrace => "RBRACE"
  | fnWord => "FUNCTION"
  | letWord => "LET"
  | returnWord => "RETURN"
  | ifWord => "IF"
  | elseWord => "ELSE"
  | trueWord => "TRUE"
  | falseWord => "FALSE"

/-- How the serialized form calls a kind. -/
def name : Kind → String
  | illegal => "Illegal"
  | eof => "Eof"
  | ident => "Ident"
  | int => "Int"
  | string => "String"
  | assign => "Assign"
  | plus => "Plus"
  | minus => "Minus"
  | bang => "Bang"
  | asterisk => "Asterisk"
  | slash => "Slash"
  | lt => "Lt"
  | gt => "Gt"
  | eq => "Eq"
  | notEq => "NotEq"
  | comma => "Comma"
  | semicolon => "Semicolon"
  | lparen => "LParen"
  | rparen => "RParen"
  | lbrace => "LBrace"
  | rbrace => "RBrace"
  | fnWord => "Function"
  | letWord => "Let"
  | returnWord => "Return"
  | ifWord => "If"
  | elseWord => "Else"
  | trueWord => "True"
  | falseWord => "False"

/-- Every kind, each once. -/
def all : List Kind :=
  [illegal, eof, ident, int, string, assign, plus, minus, bang, asterisk, slash, lt, gt, eq,
    notEq, comma, semicolon, lparen, rparen, lbrace, rbrace, fnWord, letWord, returnWord, ifWord,
    elseWord, trueWord, falseWord]

/-- The kind with this serialized name. -/
def ofName? (s : String) : Option Kind :=
  all.find? (·.name = s)

theorem ofName?_name (k : Kind) : ofName? k.name = some k := by
  cases k <;> decide

/-- The kind of a reserved word; any other word is a plain identifier. -/
def keyword? : String → Option Kind
  | "fn" => some fnWord
  | "let" => some letWord
  | "return" => some returnWord
  | "if" => some ifWord
  | "else" => some elseWord
  | "true" => some trueWord
  | "false" => some falseWord
  | _ => none

/-- Whether a kind is that of a reserved word. -/
def isKeyword : Kind → Bool
  | fnWord | letWord | returnWord | ifWord | elseWord | trueWord | falseWord => true
  | _ => false

theorem isKeyword_of_keyword? {s : String} {k : Kind} (h : keyword? s = some k) :
    k.isKeyword = true := by
  unfold keyword? at h
  split at h <;> simp_all [isKeyword] <;> subst h <;> rfl

end Kind

end Monkey.Token

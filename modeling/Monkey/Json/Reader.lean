import Monkey.Json.Basic
import Monkey.Numeral

/-! # Reading JSON

`Json.ofText?` reads one JSON value that fills a text, blanks around it apart.
A key that an object writes twice keeps its last value. The depth of the
recursion is bounded by the length of the text.
-/

namespace Monkey.Json.Reader

/-- The rest of a text after the blanks at its front. -/
def skipBlanks (cs : List Char) : List Char :=
  cs.dropWhile fun c => c == ' ' || c == '\t' || c == '\n' || c == '\r'

/-- A character of a string, or a 16-bit code unit given by a numeric escape. -/
inductive Piece
  | char (c : Char)
  | unit (n : Nat)

/-- The value of a hexadecimal digit. -/
def hexDigit? (c : Char) : Option Nat :=
  if c.isDigit then some (c.toNat - '0'.toNat)
  else if 'a' ≤ c ∧ c ≤ 'f' then some (c.toNat - 'a'.toNat + 10)
  else if 'A' ≤ c ∧ c ≤ 'F' then some (c.toNat - 'A'.toNat + 10)
  else none

/-- The number that hexadecimal digits stand for. -/
def codeUnit? (digits : List Char) : Option Nat :=
  digits.foldlM (fun n c => (hexDigit? c).map (n * 16 + ·)) 0

/-- The character that a letter after a backslash stands for. -/
def letter? : Char → Option Char
  | '"' => some '"'
  | '\\' => some '\\'
  | '/' => some '/'
  | 'b' => some '\x08'
  | 'f' => some '\x0c'
  | 'n' => some '\n'
  | 'r' => some '\r'
  | 't' => some '\t'
  | _ => none

/-- The pieces of a string up to its closing quote, and what follows. -/
def pieces : List Char → Option (List Piece × List Char)
  | [] => none
  | '"' :: cs => some ([], cs)
  | '\\' :: 'u' :: a :: b :: c :: d :: cs => do
    let n ← codeUnit? [a, b, c, d]
    let (ps, rest) ← pieces cs
    return (.unit n :: ps, rest)
  | '\\' :: c :: cs => do
    let d ← letter? c
    let (ps, rest) ← pieces cs
    return (.char d :: ps, rest)
  | c :: cs =>
    if c.toNat < 0x20 then none
    else (pieces cs).map fun (ps, rest) => (.char c :: ps, rest)

/-- The characters that pieces stand for; a pair of surrogates is one character. -/
def join : List Piece → Option (List Char)
  | [] => some []
  | .char c :: ps => (join ps).map (c :: ·)
  | .unit h :: .unit l :: ps =>
    if 0xd800 ≤ h ∧ h < 0xdc00 ∧ 0xdc00 ≤ l ∧ l < 0xe000 then
      (join ps).map (Char.ofNat (0x10000 + (h - 0xd800) * 0x400 + (l - 0xdc00)) :: ·)
    else if 0xd800 ≤ h ∧ h < 0xe000 then none
    else (join (.unit l :: ps)).map (Char.ofNat h :: ·)
  | .unit n :: ps =>
    if 0xd800 ≤ n ∧ n < 0xe000 then none else (join ps).map (Char.ofNat n :: ·)

/-- The string after an opening quote, and what follows its closing quote. -/
def string (cs : List Char) : Option (String × List Char) := do
  let (ps, rest) ← pieces cs
  return (String.ofList (← join ps), rest)

/-- The characters that numbers are made of. -/
def isNumeral (c : Char) : Bool :=
  c.isDigit || c == '-' || c == '+' || c == '.' || c == 'e' || c == 'E'

/-- Whether digits are a whole number without a superfluous zero in front. -/
def isWhole : List Char → Bool
  | [] => false
  | ['0'] => true
  | '0' :: _ => false
  | cs => cs.all Char.isDigit

/-- Whether a text is a sign, if any, and one or more digits. -/
def isExponent (cs : List Char) : Bool :=
  (Numeral.read? cs).isSome

/-- Whether a text is an unsigned number with a fraction or an exponent. -/
def isReal (cs : List Char) : Bool :=
  let isPoint c := c == '.' || c == 'e' || c == 'E'
  isWhole (cs.takeWhile (!isPoint ·)) &&
    match cs.dropWhile (!isPoint ·) with
    | '.' :: fraction =>
      let digits := fraction.takeWhile Char.isDigit
      !digits.isEmpty &&
        match fraction.dropWhile Char.isDigit with
        | [] => true
        | c :: exponent => (c == 'e' || c == 'E') && isExponent exponent
    | _ :: exponent => isExponent exponent
    | [] => false

/-- The number that a numeral stands for. Minus zero is no whole number. -/
def number? : List Char → Option Json
  | ['-', '0'] => some (.real "-0")
  | '-' :: cs =>
    if isWhole cs then (Numeral.readDigits? cs).map fun n => .int (-Int.ofNat n)
    else if isReal cs then some (.real (String.ofList ('-' :: cs)))
    else none
  | cs =>
    if isWhole cs then (Numeral.readDigits? cs).map fun n => .int (Int.ofNat n)
    else if isReal cs then some (.real (String.ofList cs))
    else none

/-- Puts a member in front of later ones, unless one of them has the same key. -/
def putFirst (key : String) (v : Json) (members : List (String × Json)) : List (String × Json) :=
  if members.any (·.1 == key) then members else (key, v) :: members

mutual

/-- The value at the front of a text, and what follows it. -/
def value : Nat → List Char → Option (Json × List Char)
  | 0, _ => none
  | budget + 1, cs =>
    match skipBlanks cs with
    | 'n' :: 'u' :: 'l' :: 'l' :: rest => some (.null, rest)
    | 't' :: 'r' :: 'u' :: 'e' :: rest => some (.bool true, rest)
    | 'f' :: 'a' :: 'l' :: 's' :: 'e' :: rest => some (.bool false, rest)
    | '"' :: rest => (string rest).map fun (s, rest) => (.str s, rest)
    | '[' :: rest =>
      match skipBlanks rest with
      | ']' :: rest => some (.arr [], rest)
      | rest => (items budget rest).map fun (vs, rest) => (.arr vs, rest)
    | '{' :: rest =>
      match skipBlanks rest with
      | '}' :: rest => some (.obj [], rest)
      | rest => (members budget rest).map fun (ms, rest) => (.obj ms, rest)
    | rest => (number? (rest.takeWhile isNumeral)).map fun v => (v, rest.dropWhile isNumeral)

/-- The items of an array from its first or after a comma, and what follows the array. -/
def items : Nat → List Char → Option (List Json × List Char)
  | 0, _ => none
  | budget + 1, cs => do
    let (v, rest) ← value budget cs
    match skipBlanks rest with
    | ',' :: rest =>
      let (vs, rest) ← items budget rest
      return (v :: vs, rest)
    | ']' :: rest => return ([v], rest)
    | _ => none

/-- The members of an object from its first or after a comma, and what follows the object. -/
def members : Nat → List Char → Option (List (String × Json) × List Char)
  | 0, _ => none
  | budget + 1, cs => do
    let '"' :: rest := skipBlanks cs | none
    let (key, rest) ← string rest
    let ':' :: rest := skipBlanks rest | none
    let (v, rest) ← value budget rest
    match skipBlanks rest with
    | ',' :: rest =>
      let (ms, rest) ← members budget rest
      return (putFirst key v ms, rest)
    | '}' :: rest => return ([(key, v)], rest)
    | _ => none

end

end Monkey.Json.Reader

namespace Monkey.Json

/-- The JSON value that a text is. -/
def ofText? (s : String) : Option Json := do
  let (v, rest) ← Reader.value (2 * s.length + 1) s.toList
  if (Reader.skipBlanks rest).isEmpty then some v else none

end Monkey.Json

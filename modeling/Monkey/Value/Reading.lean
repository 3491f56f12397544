import Monkey.Value.Machine

/-! # Numerals in machine arithmetic

A machine reads a numeral digit by digit and has an integer of 64 bits at any time. It
multiplies what it has by ten and puts the digit to it, and stops where either of them
wraps. A digit of a negative numeral is taken away: the least integer is the negative of
none.
-/

namespace Monkey.Integer

/-- The integer that a digit stands for. -/
def digit? (c : Char) : Option Integer :=
  if c.isDigit then some (Int64.ofNat (c.toNat - '0'.toNat)) else none

/-- Reads digits after those that gave `n`, and joins each of them to ten times what there is. -/
def readDigits? (join : Integer → Integer → Option Integer) (n : Integer) :
    List Char → Option Integer
  | [] => some n
  | c :: cs => do
    let digit ← digit? c
    let tens ← n.mul? 10
    readDigits? join (← join tens digit) cs

/-- Reads an optional sign and at least one digit. -/
def read? : List Char → Option Integer
  | [] | ['+'] | ['-'] => none
  | '-' :: cs => readDigits? sub? 0 cs
  | '+' :: cs | cs => readDigits? add? 0 cs

end Monkey.Integer

/-! # Decimal numerals

Whole numbers as decimal text. A numeral is an optional sign and one or more
digits; leading zeros are allowed, and the written form of a number has none.
-/

namespace Monkey.Numeral

/-- The value of a run of digits; a run has at least one. -/
def readDigits? (cs : List Char) : Option Nat :=
  if !cs.isEmpty && cs.all Char.isDigit then some (Nat.ofDigitChars 10 cs 0) else none

/-- The number that a numeral stands for. -/
def read? : List Char → Option Int
  | '+' :: cs => (readDigits? cs).map Int.ofNat
  | '-' :: cs => (readDigits? cs).map fun n => -Int.ofNat n
  | cs => (readDigits? cs).map Int.ofNat

/-- The decimal text of a natural number. -/
def ofNat (n : Nat) : String :=
  String.ofList (Nat.toDigits 10 n)

/-- The decimal text of a number. -/
def ofInt : Int → String
  | .ofNat n => ofNat n
  | .negSucc n => "-" ++ ofNat (n + 1)

theorem toList_ofInt_negSucc (n : Nat) :
    (ofInt (.negSucc n)).toList = '-' :: Nat.toDigits 10 (n + 1) := by
  rw [ofInt, ofNat, String.toList_append, String.toList_ofList, String.toList_ofList]
  rfl

theorem isDigit_of_mem_toDigits {n : Nat} {c : Char} (hc : c ∈ Nat.toDigits 10 n) :
    c.isDigit = true :=
  Nat.isDigit_of_mem_toDigits (by decide) (by decide) hc

theorem readDigits?_toDigits (n : Nat) : readDigits? (Nat.toDigits 10 n) = some n := by
  have hd : (Nat.toDigits 10 n).all Char.isDigit = true :=
    List.all_eq_true.2 fun c hc => isDigit_of_mem_toDigits hc
  simp [readDigits?, Nat.toDigits_ne_nil, hd, Nat.ofDigitChars_ten_toDigits]

/-- A numeral without a sign is read as its digits. -/
theorem read?_of_isDigit {cs : List Char} (h : ∀ c ∈ cs, c.isDigit = true) :
    read? cs = (readDigits? cs).map Int.ofNat := by
  unfold read?
  split
  · exact absurd (h '+' List.mem_cons_self) (by decide)
  · exact absurd (h '-' List.mem_cons_self) (by decide)
  · rfl

/-- A number is read back from its decimal text. -/
theorem read?_ofInt (n : Int) : read? (ofInt n).toList = some n := by
  cases n with
  | ofNat k =>
    rw [ofInt, ofNat, String.toList_ofList, read?_of_isDigit fun _ => isDigit_of_mem_toDigits,
      readDigits?_toDigits]
    rfl
  | negSucc k =>
    rw [toList_ofInt_negSucc, read?, readDigits?_toDigits]
    rfl

end Monkey.Numeral

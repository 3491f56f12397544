import Monkey.Numeral

/-! # Integers

The integers of the language are signed and 64 bits wide. Arithmetic is done on
whole numbers; `ofInt?` then says whether the result is an integer, so nothing
ever wraps.
-/

namespace Monkey

/-- A signed 64-bit integer. -/
abbrev Integer := Int64

namespace Integer

/-- The integer equal to a whole number, if it lies in -2⁶³ .. 2⁶³ - 1. -/
def ofInt? (n : Int) : Option Integer :=
  if h : Int64.minValue.toInt ≤ n ∧ n ≤ Int64.maxValue.toInt then
    some (Int64.ofIntLE n h.1 h.2)
  else
    none

theorem ofInt?_eq_some_iff {n : Int} {i : Integer} : ofInt? n = some i ↔ i.toInt = n := by
  unfold ofInt?
  split
  · next h =>
    rw [Option.some.injEq]
    constructor
    · rintro rfl
      exact Int64.toInt_ofIntLE
    · rintro rfl
      exact Int64.ofIntLE_toInt i
  · next h =>
    simp only [reduceCtorEq, false_iff]
    rintro rfl
    exact h ⟨i.minValue_le_toInt, i.toInt_le⟩

theorem ofInt?_toInt (i : Integer) : ofInt? i.toInt = some i :=
  ofInt?_eq_some_iff.2 rfl

theorem ofInt?_eq_none_iff {n : Int} :
    ofInt? n = none ↔ n < Int64.minValue.toInt ∨ Int64.maxValue.toInt < n := by
  unfold ofInt?
  split
  · next h =>
    simp only [reduceCtorEq, false_iff]
    omega
  · next h =>
    simp only [true_iff]
    omega

/-- The integer that a numeral stands for, if it is in range. -/
def ofNumeral? (text : String) : Option Integer :=
  (Numeral.read? text.toList).bind ofInt?

/-- The decimal text of an integer. -/
def toText (i : Integer) : String :=
  Numeral.ofInt i.toInt

end Integer

end Monkey

/-! # Lines of bytes

A sequence of bytes is cut into lines at its line feeds. A line feed ends a
line and belongs to none; the last line may lack it.
-/

namespace Monkey.Text

/-- The byte that ends a line. -/
def lineFeed : UInt8 := 10

/-- The lines of a sequence of bytes. -/
def lines : List UInt8 → List (List UInt8)
  | [] => []
  | b :: bs =>
    if b = lineFeed then [] :: lines bs
    else match lines bs with
      | [] => [[b]]
      | l :: ls => (b :: l) :: ls

/-- The bytes up to and with the next line feed, or all of them, and those behind. -/
def readLine : List UInt8 → List UInt8 × List UInt8
  | [] => ([], [])
  | b :: bs =>
    if b = lineFeed then ([b], bs)
    else
      let (line, rest) := readLine bs
      (b :: line, rest)

theorem readLine_append (bs : List UInt8) : (readLine bs).1 ++ (readLine bs).2 = bs := by
  induction bs with
  | nil => rfl
  | cons b bs ih =>
    rw [readLine]
    split
    · rfl
    · exact congrArg (b :: ·) ih

theorem length_readLine_lt {bs : List UInt8} (h : (readLine bs).1 ≠ []) :
    (readLine bs).2.length < bs.length := by
  have hlength := congrArg List.length (readLine_append bs)
  have hpos := List.length_pos_iff.2 h
  rw [List.length_append] at hlength
  omega

/-- The text that bytes encode in UTF-8, if they do. -/
def decodeUtf8? (bytes : List UInt8) : Option String :=
  String.fromUTF8? ⟨bytes.toArray⟩

end Monkey.Text

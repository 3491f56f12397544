import Mathlib.Data.List.Forall2
import Mathlib.Data.List.Basic
import Monkey.Text.Blank
import Monkey.Text.Lines

/-! # Where lines end

The line that is read from the front of some bytes is the first of their lines, with the
line feed that ends it if there is one. What stands behind a line feed has no part in the
lines before it, and a carriage return before every line feed only makes lines longer by
a blank.
-/

namespace Monkey.Text

variable {bs line rest : List UInt8} {b : UInt8}

theorem lines_lineFeed (bs : List UInt8) : lines (lineFeed :: bs) = [] :: lines bs :=
  if_pos rfl

theorem lines_eq_nil_iff : lines bs = [] ↔ bs = [] := by
  cases bs with
  | nil => exact iff_of_true rfl rfl
  | cons b bs =>
    rw [lines]
    split
    · simp
    · split <;> simp

/-- A byte that ends no line belongs to the first of the lines behind it. -/
theorem lines_cons (hb : b ≠ lineFeed) (bs : List UInt8) :
    lines (b :: bs) = (b :: (lines bs).headD []) :: (lines bs).tail := by
  rw [lines, if_neg hb]
  cases lines bs <;> rfl

/-- Bytes without a line feed are one line. -/
theorem lines_of_not_mem (hbs : bs ≠ []) (h : lineFeed ∉ bs) : lines bs = [bs] := by
  induction bs with
  | nil => exact absurd rfl hbs
  | cons b bs ih =>
    obtain ⟨hb, hrest⟩ := not_or.1 (mt List.mem_cons.2 h)
    rw [lines_cons (Ne.symm hb)]
    obtain rfl | hbs := eq_or_ne bs []
    · rfl
    · rw [ih hbs hrest]
      rfl

theorem readLine_eq_nil_iff : (readLine bs).1 = [] ↔ bs = [] := by
  cases bs with
  | nil => exact iff_of_true rfl rfl
  | cons b bs =>
    rw [readLine]
    split <;> simp

/-- The line that is read is the first of the lines, or it is this line with its line feed. -/
theorem lines_of_readLine (hbs : bs ≠ []) :
    ∃ l, lines bs = l :: lines (readLine bs).2 ∧
      ((readLine bs).1 = l ∨ (readLine bs).1 = l ++ [lineFeed]) := by
  induction bs with
  | nil => exact absurd rfl hbs
  | cons b bs ih =>
    by_cases hb : b = lineFeed
    · refine ⟨[], ?_, .inr ?_⟩
      · rw [hb, lines_lineFeed, readLine, if_pos rfl]
      · rw [hb, readLine, if_pos rfl, List.nil_append]
    · have hread : readLine (b :: bs) = (b :: (readLine bs).1, (readLine bs).2) := by
        rw [readLine, if_neg hb]
      rw [hread]
      obtain rfl | hbs := eq_or_ne bs []
      · exact ⟨[b], lines_cons hb [], .inl rfl⟩
      · obtain ⟨l, hlines, hline⟩ := ih hbs
        refine ⟨b :: l, by rw [lines_cons hb, hlines]; rfl, ?_⟩
        exact hline.imp (congrArg (b :: ·)) (congrArg (b :: ·))

/-- What stands behind a line feed is cut into lines on its own. -/
theorem exists_lines_append (bs : List UInt8) :
    ∃ ls, ∀ tail, lines (bs ++ lineFeed :: tail) = lines bs ++ (ls ++ lines tail) := by
  -- What is put between is an empty line, unless the line feed ends a line that has begun.
  induction bs with
  | nil => exact ⟨[[]], lines_lineFeed⟩
  | cons b bs ih =>
    obtain ⟨ls, hls⟩ := ih
    by_cases hb : b = lineFeed
    · refine ⟨ls, fun tail => ?_⟩
      rw [hb, List.cons_append, lines_lineFeed, lines_lineFeed, hls, List.cons_append]
    · obtain rfl | hbs := eq_or_ne bs []
      · refine ⟨[], fun tail => ?_⟩
        rw [List.cons_append, lines_cons hb, lines_cons hb, List.nil_append, lines_lineFeed]
        rfl
      · obtain ⟨l, ls', hlines⟩ := List.exists_cons_of_ne_nil (mt lines_eq_nil_iff.1 hbs)
        refine ⟨ls, fun tail => ?_⟩
        rw [List.cons_append, lines_cons hb, lines_cons hb, hls, hlines]
        rfl

/-- A line feed behind the last line adds no line, if this line has none. -/
theorem lines_concat_lineFeed (hbs : bs ≠ []) (hlast : bs.getLast? ≠ some lineFeed) :
    lines (bs ++ [lineFeed]) = lines bs := by
  induction bs with
  | nil => exact absurd rfl hbs
  | cons b bs ih =>
    obtain rfl | hbs := eq_or_ne bs []
    · have hb : b ≠ lineFeed := fun h => hlast (congrArg some h)
      rw [List.cons_append, lines_cons hb, lines_cons hb, List.nil_append, lines_lineFeed]
      rfl
    · rw [List.getLast?_cons_of_ne_nil hbs] at hlast
      have hlines := ih hbs hlast
      by_cases hb : b = lineFeed
      · rw [hb, List.cons_append, lines_lineFeed, lines_lineFeed, hlines]
      · rw [List.cons_append, lines_cons hb, lines_cons hb, hlines]

/-! ## Carriage returns -/

/-- The byte that may stand before a line feed. -/
def carriageReturn : UInt8 := 13

/-- The bytes with a carriage return before every line feed. -/
def withReturns (bs : List UInt8) : List UInt8 :=
  bs.flatMap fun b => if b = lineFeed then [carriageReturn, lineFeed] else [b]

theorem lines_withReturns (bs : List UInt8) :
    List.Forall₂ (fun l l' => l' = l ∨ l' = l ++ [carriageReturn]) (lines bs)
      (lines (withReturns bs)) := by
  induction bs with
  | nil => exact .nil
  | cons b bs ih =>
    by_cases hb : b = lineFeed
    · subst hb
      have hreturns : withReturns (lineFeed :: bs) =
          carriageReturn :: lineFeed :: withReturns bs := rfl
      rw [hreturns, lines_lineFeed, lines_cons (by decide), lines_lineFeed]
      exact .cons (.inr rfl) ih
    · have hreturns : withReturns (b :: bs) = b :: withReturns bs := by simp [withReturns, hb]
      rw [hreturns, lines_cons hb, lines_cons hb]
      generalize lines bs = ls, lines (withReturns bs) = ls' at ih ⊢
      cases ih with
      | nil => exact .cons (.inl rfl) .nil
      | cons hl hls => exact .cons (hl.imp (congrArg (b :: ·)) (congrArg (b :: ·))) hls

/-! ## Blanks at the end of a line -/

theorem trim_push {c : Char} (hc : isBlank c = true) (s : String) : trim (s.push c) = trim s := by
  have hdrop : ((s.toList ++ [c]).dropWhile isBlank).reverse.dropWhile isBlank =
      (s.toList.dropWhile isBlank).reverse.dropWhile isBlank := by
    rw [List.dropWhile_append]
    split
    · next hempty => simp [hc, List.isEmpty_iff.1 hempty]
    · simp [hc]
  rw [trim, String.toList_push, hdrop, trim]

end Monkey.Text

import Monkey.Token.Basic

/-! # Reading tokens in order

A cursor stands in a list of tokens and moves forward only. Tokens after the
first end of text are never read, and a list without one is read as if an end
stood after its last token; so the cursor always has a current token, and it
stays on the end once there.
-/

namespace Monkey.Token

/-- A place in a list of tokens. -/
structure Cursor where
  /-- How many tokens have been read. -/
  index : Nat
  /-- The tokens still to be read, up to the end of text. -/
  pending : List Token
  /-- The end of text. -/
  stop : Token
  pending_ne_eof : ∀ t ∈ pending, t.kind ≠ .eof
  stop_eq_eof : stop.kind = .eof
  deriving DecidableEq, Repr

namespace Cursor

/-- The end that is read after a list of tokens which has none. -/
def impliedEnd (ts : List Token) : Token :=
  match ts.getLast? with
  | some t => endOfText t.position
  | none => endOfText .start

/-- A list of tokens with the end of text that the parser supplies after a list that has none. -/
def closed (ts : List Token) : List Token :=
  if ts.getLast?.map Token.kind = some .eof then ts else ts ++ [impliedEnd ts]

/-- The first end of text that is read in a list of tokens. -/
def firstEnd (ts : List Token) : Token :=
  (ts.find? (·.kind = .eof)).getD (impliedEnd ts)

theorem impliedEnd_kind (ts : List Token) : (impliedEnd ts).kind = .eof := by
  unfold impliedEnd
  split <;> rfl

theorem firstEnd_kind (ts : List Token) : (firstEnd ts).kind = .eof := by
  unfold firstEnd
  cases h : ts.find? (·.kind = .eof) with
  | none => exact impliedEnd_kind ts
  | some t => simpa using List.find?_some h

theorem mem_takeWhile_ne_eof {ts : List Token} {t : Token}
    (h : t ∈ ts.takeWhile (·.kind ≠ .eof)) : t.kind ≠ .eof := by
  induction ts with
  | nil => simp at h
  | cons u us ih =>
    rw [List.takeWhile_cons] at h
    split at h
    · next hu =>
      rcases List.mem_cons.1 h with rfl | h
      · simpa using hu
      · exact ih h
    · simp at h

/-- The place before the first of a list of tokens. -/
def ofTokens (ts : List Token) : Cursor where
  index := 0
  pending := ts.takeWhile (·.kind ≠ .eof)
  stop := firstEnd ts
  pending_ne_eof _ := mem_takeWhile_ne_eof
  stop_eq_eof := firstEnd_kind ts

/-- The token at the cursor. -/
def peek (c : Cursor) : Token :=
  c.pending.headD c.stop

/-- The place after the current token; the end of text has none after it. -/
def advance (c : Cursor) : Cursor where
  index := if c.pending.isEmpty then c.index else c.index + 1
  pending := c.pending.tail
  stop := c.stop
  pending_ne_eof t h := c.pending_ne_eof t (List.mem_of_mem_tail h)
  stop_eq_eof := c.stop_eq_eof

/-- How many tokens are left before the end of text. -/
def left (c : Cursor) : Nat :=
  c.pending.length

theorem left_advance (c : Cursor) : c.advance.left = c.left - 1 := by
  simp [left, advance]

theorem left_pos_iff {c : Cursor} : 0 < c.left ↔ c.peek.kind ≠ .eof := by
  obtain ⟨_, pending, stop, hp, hs⟩ := c
  cases pending with
  | nil => simp [left, peek, hs]
  | cons t ts => simpa [left, peek] using hp t (by simp)

end Cursor

end Monkey.Token

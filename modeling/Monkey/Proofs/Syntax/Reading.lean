import Monkey.Token.Cursor

/-! # Reading a list of tokens

A cursor reads a list of tokens if the list comes next and the cursor after it
is the given one. Lists are read one after the other, token by token.
-/

namespace Monkey.Token.Cursor

/-- Whether `ts` comes next at `c`, and `c'` stands right after it. -/
structure Reads (c : Cursor) (ts : List Token) (c' : Cursor) : Prop where
  pending : c.pending = ts ++ c'.pending
  index : c'.index = c.index + ts.length
  stop : c'.stop = c.stop

variable {c c' d : Cursor} {t : Token} {ts us : List Token}

theorem ext_of_eq (hindex : c.index = d.index) (hpending : c.pending = d.pending)
    (hstop : c.stop = d.stop) : c = d := by
  cases c
  cases d
  simp_all

theorem takeWhile_append_ne_eof (h : ∀ t ∈ ts, t.kind ≠ .eof) (us : List Token) :
    (ts ++ us).takeWhile (·.kind ≠ .eof) = ts ++ us.takeWhile (·.kind ≠ .eof) :=
  List.takeWhile_append_of_pos (by simpa using h)

theorem takeWhile_ne_eof (h : ∀ t ∈ ts, t.kind ≠ .eof) : ts.takeWhile (·.kind ≠ .eof) = ts := by
  simpa using takeWhile_append_ne_eof h []

namespace Reads

theorem refl (c : Cursor) : c.Reads [] c := ⟨rfl, rfl, rfl⟩

theorem eq (h : c.Reads [] c') : c = c' :=
  ext_of_eq h.index.symm h.pending h.stop.symm

theorem trans (h : c.Reads ts d) (h' : d.Reads us c') : c.Reads (ts ++ us) c' where
  pending := by rw [h.pending, h'.pending, List.append_assoc]
  index := by rw [h'.index, h.index, List.length_append, Nat.add_assoc]
  stop := h'.stop.trans h.stop

theorem peek_eq (h : c.Reads (t :: ts) c') : c.peek = t := by
  simp [peek, h.pending]

theorem advance_of_pending (h : c.pending = t :: ts) : c.Reads [t] c.advance := by
  refine ⟨?_, ?_, rfl⟩ <;> simp [Cursor.advance, h]

theorem advance (h : c.peek.kind ≠ .eof) : c.Reads [c.peek] c.advance := by
  have hleft := left_pos_iff.2 h
  obtain ⟨t, ts, hpending⟩ := List.exists_cons_of_length_pos hleft
  have hpeek : c.peek = t := by simp [peek, hpending]
  rw [hpeek]
  exact advance_of_pending hpending

theorem split (h : c.Reads (ts ++ us) c') : ∃ d, c.Reads ts d ∧ d.Reads us c' := by
  have hmem (t : Token) (ht : t ∈ us ++ c'.pending) : t.kind ≠ .eof :=
    c.pending_ne_eof t (by rw [h.pending, List.append_assoc]; exact List.mem_append_right _ ht)
  refine ⟨⟨c.index + ts.length, us ++ c'.pending, c.stop, hmem, c.stop_eq_eof⟩, ?_, ?_⟩
  · exact ⟨by rw [h.pending, List.append_assoc], rfl, rfl⟩
  · exact ⟨rfl, by rw [h.index, List.length_append, Nat.add_assoc], h.stop⟩

theorem tail (h : c.Reads (t :: ts) c') : c.advance.Reads ts c' where
  pending := by simp [Cursor.advance, h.pending]
  index := by simp [Cursor.advance, h.pending, h.index, Nat.add_comm, Nat.add_left_comm]
  stop := h.stop

theorem eq_advance (h : c.Reads [t] c') : c' = c.advance :=
  (Reads.eq (tail h)).symm

/-- All that is left can be read, up to the end of text. -/
theorem exists_end (c : Cursor) : ∃ c', c.Reads c.pending c' ∧ c'.peek.kind = .eof :=
  ⟨⟨c.index + c.pending.length, [], c.stop, by simp, c.stop_eq_eof⟩,
    ⟨(List.append_nil _).symm, rfl, rfl⟩, c.stop_eq_eof⟩

theorem eq_pending (h : c.Reads ts c') (hend : c'.peek.kind = .eof) : ts = c.pending := by
  have hleft : c'.left = 0 := by
    have hpos := mt left_pos_iff.1 (not_not_intro hend)
    omega
  have hnil : c'.pending = [] := List.length_eq_zero_iff.1 hleft
  rw [h.pending, hnil, List.append_nil]

end Reads

end Monkey.Token.Cursor

import Monkey.Proofs.Syntax.Recognition

/-! # Faults are about the earliest offending token

The tokens before the one that a parsing fault is about begin some program. That
token cannot follow them, and nothing after it has a part in the fault.
-/

namespace Monkey

open Token Monkey.Parser

namespace Token.Cursor

variable {ts us : List Token} {t : Token} {k : Nat}

theorem pending_append (hts : ∀ t ∈ ts, t.kind ≠ .eof) (us : List Token) :
    (ofTokens (ts ++ us)).pending = ts ++ (ofTokens us).pending :=
  takeWhile_append_ne_eof hts us

theorem ofTokens_append_eof (us : List Token) (hts : ∀ t ∈ ts, t.kind ≠ .eof)
    (ht : t.kind = .eof) :
    (ofTokens (ts ++ t :: us)).pending = ts ∧ (ofTokens (ts ++ t :: us)).stop = t := by
  constructor
  · rw [pending_append hts]
    simp [ofTokens, ht]
  · have hfind : (ts ++ t :: us).find? (·.kind = .eof) = some t := by
      rw [List.find?_eq_some_iff_append]
      exact ⟨by simpa using ht, ts, us, rfl, by simpa using hts⟩
    simp only [ofTokens, firstEnd, hfind, Option.getD_some]

theorem closed_eq (ts : List Token) :
    ∃ us, closed ts = (ofTokens ts).pending ++ (ofTokens ts).stop :: us := by
  cases hfind : ts.find? (·.kind = .eof) with
  | none =>
    have hne : ∀ t ∈ ts, t.kind ≠ .eof := by simpa using hfind
    have hlast : ts.getLast?.map Token.kind ≠ some .eof := by
      intro hlast
      obtain ⟨t, ht, hk⟩ := Option.map_eq_some_iff.1 hlast
      exact hne t (List.mem_of_getLast? ht) hk
    have hstop : (ofTokens ts).stop = impliedEnd ts := by simp [ofTokens, firstEnd, hfind]
    have hpending : (ofTokens ts).pending = ts := takeWhile_ne_eof hne
    exact ⟨[], by rw [closed, if_neg hlast, hstop, hpending]⟩
  | some t =>
    obtain ⟨hk, us, vs, rfl, hus⟩ := List.find?_eq_some_iff_append.1 hfind
    obtain ⟨hpending, hstop⟩ :=
      ofTokens_append_eof vs (by simpa using hus) (of_decide_eq_true hk)
    rw [hpending, hstop, closed]
    split
    · exact ⟨vs, rfl⟩
    · exact ⟨vs ++ [impliedEnd (us ++ t :: vs)], by simp⟩

/-- Every token up to the first end of text, and that one too, is read at its own place. -/
theorem ahead_append (hts : ∀ t ∈ ts, t.kind ≠ .eof) (hk : ts.length = k) :
    (ofTokens (ts ++ t :: us)).ahead k = t := by
  subst hk
  by_cases ht : t.kind = .eof
  · obtain ⟨hpending, hstop⟩ := ofTokens_append_eof us hts ht
    rw [ahead, hpending, hstop]
    simp
  · rw [ahead, pending_append hts]
    simp [ofTokens, ht]

theorem closed_split (hk : k ≤ (ofTokens ts).pending.length) :
    ∃ us, closed ts = (ofTokens ts).pending.take k ++ (ofTokens ts).ahead k :: us := by
  obtain ⟨us, hus⟩ := closed_eq ts
  rcases Nat.lt_or_eq_of_le hk with hlt | rfl
  · refine ⟨(ofTokens ts).pending.drop (k + 1) ++ (ofTokens ts).stop :: us, ?_⟩
    have hahead : (ofTokens ts).ahead k = (ofTokens ts).pending[k] := by
      simp [ahead, List.getElem?_eq_getElem hlt]
    have hsplit : (ofTokens ts).pending.take k ++
        (ofTokens ts).pending[k] :: (ofTokens ts).pending.drop (k + 1) =
          (ofTokens ts).pending := by simp
    rw [hus, hahead, ← List.cons_append, ← List.append_assoc, hsplit]
  · exact ⟨us, by rw [hus, ahead]; simp⟩

/-- A list that begins as another one does, up to an index, reads as that one up to the index. -/
theorem agreeTo_of_take (hk : k ≤ (ofTokens ts).pending.length) (us : List Token) :
    (ofTokens ts).AgreeTo k (ofTokens ((closed ts).take (k + 1) ++ us)) := by
  constructor
  · rfl
  · intro j hj
    have hj : j ≤ k := by simpa [ofTokens] using hj
    obtain ⟨vs, hvs⟩ := closed_split (Nat.le_trans hj hk)
    have hlen : ((ofTokens ts).pending.take j).length = j := by simp; omega
    have htake : (closed ts).take (k + 1) ++ us =
        (ofTokens ts).pending.take j ++ (ofTokens ts).ahead j :: (vs.take (k - j) ++ us) := by
      have hsucc : k + 1 - j = k - j + 1 := by omega
      rw [hvs, List.take_append, hlen, hsucc, List.take_of_length_le (by omega)]
      simp
    have hne : ∀ t ∈ (ofTokens ts).pending.take j, t.kind ≠ .eof := fun t ht =>
      (ofTokens ts).pending_ne_eof t (List.mem_of_mem_take ht)
    rw [htake]
    exact ahead_append hne hlen

end Token.Cursor

namespace Program

open Cursor

/-- A list of tokens that is no program has a run of the parser that fails. -/
theorem exists_runAt_of_error {ts : List Token} {e : Fault} (h : ofTokens ts = .error e) :
    ∃ c', (Parser.program (budgetAt (.ofTokens ts))).runAt (.ofTokens ts) =
      some (.error e, c') := by
  have hparse : parse (.ofTokens ts) = (.error e, (parse (.ofTokens ts)).2) := Prod.ext h rfl
  exact ⟨_, (runAt_program _).trans (congrArg some hparse)⟩

/-- Whatever fails to be parsed fails in the stage of parsing. -/
theorem stage_of_ofTokens {ts : List Token} {e : Fault} (h : ofTokens ts = .error e) :
    e.stage = .parsing := by
  obtain ⟨c', hrun⟩ := exists_runAt_of_error h
  obtain ⟨_, _, _, hindex, -⟩ := (soundAt _).statements [.eof] _ _ _ hrun
  exact Fault.stage_of_index? hindex

/--
A parsing fault carries the index of a token. The tokens before it begin a program; every list of
tokens that begins with those and the token itself fails with the same fault.
-/
theorem ofTokens_fault_earliest {ts : List Token} {e : Fault} (h : ofTokens ts = .error e) :
    ∃ i, e.index? = some i ∧ i < (closed ts).length ∧
      (∃ us p, ofTokens ((closed ts).take i ++ us) = .ok p) ∧
      ∀ us, ofTokens ((closed ts).take (i + 1) ++ us) = .error e := by
  obtain ⟨c', hrun⟩ := exists_runAt_of_error h
  obtain ⟨us, d, hus, hindex, ss, vs, hd, -⟩ := (soundAt _).statements [.eof] _ _ _ hrun
  have hi : d.index = us.length := by simpa [Cursor.ofTokens] using hus.index
  have hle : us.length ≤ (Cursor.ofTokens ts).pending.length := by simp [hus.pending]
  obtain ⟨ws, hws⟩ := closed_eq ts
  rw [hi] at hindex
  refine ⟨us.length, hindex, ?_, ⟨vs, ss, ?_⟩, ?_⟩
  · rw [hws, List.length_append, List.length_cons]
    omega
  · have htake : (closed ts).take us.length = us := by
      rw [hws, hus.pending, List.append_assoc]
      exact List.take_left
    rw [htake]
    exact ofTokens_self_of_derives hd
  · intro vs
    apply parse_eq_of_agreeTo hrun
    have hhorizon : horizon (.error e : Except Fault Program) c' = us.length := by
      simp [horizon, hindex]
    rw [hhorizon]
    exact agreeTo_of_take hle vs

/-- A `return` whose semicolon is missing: the end of text is the offending token. -/
theorem ofTokens_fault_unended :
    ofTokens [.ofKind .returnWord, .ofKind .ident] =
        .error (.unexpectedToken [.semicolon] (endOfText .start) 2) ∧
      (∃ us p, ofTokens ([.ofKind .returnWord, .ofKind .ident] ++ us) = .ok p) ∧
      ∀ us, ofTokens ([.ofKind .returnWord, .ofKind .ident, endOfText .start] ++ us) =
        .error (.unexpectedToken [.semicolon] (endOfText .start) 2) := by
  have h : ofTokens [.ofKind .returnWord, .ofKind .ident] =
      .error (.unexpectedToken [.semicolon] (endOfText .start) 2) := rfl
  obtain ⟨i, hi, -, hviable, hfails⟩ := ofTokens_fault_earliest h
  obtain rfl : i = 2 := by simpa [Fault.index?] using hi.symm
  exact ⟨h, hviable, hfails⟩

end Program

end Monkey

import Monkey.Proofs.Token.LexicalGrammar

/-! # The written form of strings

What `quote` writes is always a string to the lexer. No two texts are written alike: the
written forms of characters are a prefix code. But reading knows fewer escapes than
writing, so a text is read back only if each of its characters is legible: written as
itself, or as one of the five letters that reading resolves.
-/

namespace Monkey.Text

/-- Whether the written form of a character is resolved to it. -/
def Legible (c : Char) : Prop :=
  escape c = [c] ∨ ∃ l ∈ ['t', 'r', 'n', '"', '\\'], escape c = ['\\', l]

variable {c d : Char} {cs ds xs ys : List Char}

/-- A character is written with a letter, as itself, or with its number. -/
theorem escape_cases (c : Char) :
    (∃ l, escapeLetter? c = some l ∧ escape c = ['\\', l]) ∨
      (escapeLetter? c = none ∧ escape c = [c]) ∨
      (escapeLetter? c = none ∧ escape c = numericEscape c) := by
  unfold escape
  cases escapeLetter? c with
  | some l => exact .inl ⟨l, rfl, rfl⟩
  | none =>
    by_cases hplain : isPlain c = true
    · exact .inr (.inl ⟨rfl, if_pos hplain⟩)
    · exact .inr (.inr ⟨rfl, if_neg hplain⟩)

/-! ## Strings to the lexer -/

theorem toDigits_sixteen {n : Nat} :
    Nat.toDigits 16 n =
      if n < 16 then [n.digitChar] else Nat.toDigits 16 (n / 16) ++ [(n % 16).digitChar] :=
  Nat.toDigits_eq_if (by decide)

theorem exists_digitChar {n : Nat} (hc : c ∈ Nat.toDigits 16 n) : ∃ k : Nat, c = k.digitChar := by
  induction n using Nat.strongRecOn with
  | ind n ih =>
    rw [toDigits_sixteen] at hc
    split at hc
    · exact ⟨n, List.mem_singleton.1 hc⟩
    · rcases List.mem_append.1 hc with hc | hc
      · exact ih (n / 16) (by omega) hc
      · exact ⟨n % 16, List.mem_singleton.1 hc⟩

/-- A hexadecimal digit is none of the characters that have a meaning between quotes. -/
theorem ne_of_mem_toDigits {n : Nat} (hc : c ∈ Nat.toDigits 16 n) :
    c ≠ '"' ∧ c ≠ '\\' ∧ c ≠ '\x7d' := by
  obtain ⟨k, rfl⟩ := exists_digitChar hc
  exact ⟨Nat.digitChar_ne _ rfl, Nat.digitChar_ne _ rfl, Nat.digitChar_ne _ rfl⟩

theorem stringBody_append (hds : ∀ d ∈ ds, d ≠ '"' ∧ d ≠ '\\') (hcs : StringBody cs) :
    StringBody (ds ++ cs) := by
  induction ds with
  | nil => exact hcs
  | cons d ds ih =>
    rw [List.forall_mem_cons] at hds
    exact .plain hds.1.1 hds.1.2 (ih hds.2)

theorem stringBody_escape (c : Char) (hcs : StringBody cs) : StringBody (escape c ++ cs) := by
  obtain ⟨l, -, hc⟩ | ⟨hletter, hc⟩ | ⟨-, hc⟩ := escape_cases c
  · rw [hc]
    exact .pair hcs
  · rw [hc]
    refine .plain ?_ ?_ hcs
    · rintro rfl
      cases hletter
    · rintro rfl
      cases hletter
  · have hdigits : StringBody ('\x7b' :: (Nat.toDigits 16 c.toNat ++ ['\x7d']) ++ cs) := by
      refine stringBody_append (fun d hd => ?_) hcs
      simp only [List.mem_cons, List.mem_append, List.not_mem_nil, or_false] at hd
      obtain rfl | hd | rfl := hd
      · decide
      · exact ⟨(ne_of_mem_toDigits hd).1, (ne_of_mem_toDigits hd).2.1⟩
      · decide
    rw [hc]
    exact .pair hdigits

/-- The written form of a text has no quote inside that closes it. -/
theorem stringBody_escapes (cs : List Char) : StringBody (cs.flatMap escape) := by
  induction cs with
  | nil => exact .nil
  | cons c cs ih =>
    rw [List.flatMap_cons]
    exact stringBody_escape c ih

theorem toList_quote (s : String) :
    (quote s).toList = '"' :: (s.toList.flatMap escape ++ ['"']) := by
  rw [quote, String.toList_ofList, List.cons_append]

/-! ## Reading back -/

theorem letterMeaning?_of_escapeLetter? {l : Char} (h : escapeLetter? c = some l)
    (hl : l ∈ ['t', 'r', 'n', '"', '\\']) : letterMeaning? l = some c := by
  unfold escapeLetter? at h
  split at h <;> cases h
  · exact absurd hl (by decide)
  all_goals rfl

theorem unescape_escape (hc : Legible c) (cs : List Char) :
    unescape (escape c ++ cs) = c :: unescape cs := by
  obtain hself | ⟨l, hl, hletter⟩ := hc
  · have hslash : c ≠ '\\' := by
      rintro rfl
      cases hself
    rw [hself, List.singleton_append, unescape]
    exact fun _ _ h _ => hslash h
  · have hmeaning : letterMeaning? l = some c := by
      obtain ⟨k, hk, hc⟩ | ⟨-, hc⟩ | ⟨-, hc⟩ := escape_cases c
      · cases hc.symm.trans hletter
        exact letterMeaning?_of_escapeLetter? hk hl
      · cases hc.symm.trans hletter
      · have hlength := congrArg List.length (hc.symm.trans hletter)
        simp [numericEscape] at hlength
    rw [hletter, List.cons_append, List.singleton_append, unescape, hmeaning]

theorem unescape_escapes (h : ∀ c ∈ cs, Legible c) : unescape (cs.flatMap escape) = cs := by
  induction cs with
  | nil => rfl
  | cons c cs ih =>
    rw [List.forall_mem_cons] at h
    rw [List.flatMap_cons, unescape_escape h.1, ih h.2]

theorem unquote_quote_eq (s : String) :
    unquote (quote s) = String.ofList (unescape (s.toList.flatMap escape)) := by
  rw [unquote, toList_quote]
  simp [stripQuotes]

theorem unquote_quote {s : String} (h : ∀ c ∈ s.toList, Legible c) : unquote (quote s) = s := by
  rw [unquote_quote_eq, unescape_escapes h, String.ofList_toList]

/-! ## Telling texts apart -/

theorem digitChar_inj {m n : Nat} (hm : m < 16) (hn : n < 16) (h : m.digitChar = n.digitChar) :
    m = n := by
  have hall : ∀ i j : Fin 16, i.val.digitChar = j.val.digitChar → i = j := by decide
  exact congrArg Fin.val (hall ⟨m, hm⟩ ⟨n, hn⟩ h)

theorem toDigits_inj {m n : Nat} (h : Nat.toDigits 16 m = Nat.toDigits 16 n) : m = n := by
  induction m using Nat.strongRecOn generalizing n with
  | ind m ih =>
    rw [toDigits_sixteen, @toDigits_sixteen n] at h
    split at h
    · next hm =>
      split at h
      · next hn => exact digitChar_inj hm hn (List.singleton_inj.1 h)
      · have hnil := (List.append_eq_singleton_iff.1 h.symm)
        simp [Nat.toDigits_ne_nil] at hnil
    · next hm =>
      split at h
      · have hnil := (List.append_eq_singleton_iff.1 h)
        simp [Nat.toDigits_ne_nil] at hnil
      · obtain ⟨hdiv, hmod⟩ := List.append_inj' h rfl
        have hdiv := ih (m / 16) (by omega) hdiv
        have hmod := digitChar_inj (Nat.mod_lt _ (by decide)) (Nat.mod_lt _ (by decide))
          (List.singleton_inj.1 hmod)
        omega

theorem escapeLetter?_inj {l : Char} (hc : escapeLetter? c = some l)
    (hd : escapeLetter? d = some l) : c = d := by
  unfold escapeLetter? at hc hd
  split at hc <;> cases hc <;> split at hd <;> cases hd <;> rfl

theorem escapeLetter?_ne_u : escapeLetter? c ≠ some 'u' := by
  unfold escapeLetter?
  split <;> simp

theorem ne_slash_of_escapeLetter? (h : escapeLetter? c = none) : c ≠ '\\' := by
  rintro rfl
  cases h

theorem numericEscape_append_inj (h : numericEscape c ++ xs = numericEscape d ++ ys) :
    c = d ∧ xs = ys := by
  have hdigits : Nat.toDigits 16 c.toNat ++ '\x7d' :: xs =
      Nat.toDigits 16 d.toNat ++ '\x7d' :: ys := by
    simpa [numericEscape] using h
  -- The digits go as far as the brace behind them.
  have hbrace (n : Nat) (zs : List Char) :
      (Nat.toDigits 16 n ++ '\x7d' :: zs).takeWhile (· ≠ '\x7d') = Nat.toDigits 16 n :=
    Lexer.takeWhile_append_of_stop (fun e he => by simp [(ne_of_mem_toDigits he).2.2]) (by simp)
  have htoDigits := congrArg (List.takeWhile (· ≠ '\x7d')) hdigits
  rw [hbrace, hbrace] at htoDigits
  rw [htoDigits, List.append_right_inj, List.cons_inj_right] at hdigits
  exact ⟨Char.toNat_inj.1 (toDigits_inj htoDigits), hdigits⟩

/-- The written form of a character ends where it shows, and tells which character it is. -/
theorem escape_append_inj (h : escape c ++ xs = escape d ++ ys) : c = d ∧ xs = ys := by
  obtain ⟨l, hl, hc⟩ | ⟨hl, hc⟩ | ⟨-, hc⟩ := escape_cases c <;>
    obtain ⟨k, hk, hd⟩ | ⟨hk, hd⟩ | ⟨-, hd⟩ := escape_cases d <;>
    rw [hc, hd] at h
  · cases h
    exact ⟨escapeLetter?_inj hl hk, rfl⟩
  · cases h
    exact absurd rfl (ne_slash_of_escapeLetter? hk)
  · cases h
    exact absurd hl escapeLetter?_ne_u
  · cases h
    exact absurd rfl (ne_slash_of_escapeLetter? hl)
  · cases h
    exact ⟨rfl, rfl⟩
  · cases h
    exact absurd rfl (ne_slash_of_escapeLetter? hl)
  · cases h
    exact absurd hk escapeLetter?_ne_u
  · cases h
    exact absurd rfl (ne_slash_of_escapeLetter? hk)
  · exact numericEscape_append_inj h

theorem escape_ne_nil (c : Char) : escape c ≠ [] := by
  obtain ⟨l, -, hc⟩ | ⟨-, hc⟩ | ⟨-, hc⟩ := escape_cases c <;> rw [hc] <;>
    exact List.cons_ne_nil _ _

theorem escapes_inj (h : cs.flatMap escape = ds.flatMap escape) : cs = ds := by
  induction cs generalizing ds with
  | nil =>
    cases ds with
    | nil => rfl
    | cons d ds => exact absurd (List.append_eq_nil_iff.1 h.symm).1 (escape_ne_nil d)
  | cons c cs ih =>
    cases ds with
    | nil => exact absurd (List.append_eq_nil_iff.1 h).1 (escape_ne_nil c)
    | cons d ds =>
      obtain ⟨rfl, hrest⟩ := escape_append_inj h
      rw [ih hrest]

/-- No two texts are written alike. -/
theorem quote_inj {s t : String} (h : quote s = quote t) : s = t := by
  have hlist := congrArg String.toList h
  rw [toList_quote, toList_quote, List.cons_inj_right, List.append_left_inj] at hlist
  exact String.toList_inj.1 (escapes_inj hlist)

end Monkey.Text

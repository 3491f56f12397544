import Mathlib.Data.Nat.Digits.Defs
import Monkey.Program.Render
import Monkey.Proofs.Evaluation.Arithmetic
import Monkey.Proofs.Syntax.Indexing
import Monkey.Proofs.Token.Decomposition
import Monkey.Value.Reading

/-! # Integer literals are exact

The text of an integer token is a sign, which may be left out, and digits, as many as there
are. It is read as the integer that it denotes, and refused if it denotes none of 64 bits.
A machine that goes through the digits finds the same. It stops as soon as what it has does
not fit, and is right to: further digits only lead away from zero.
-/

namespace Monkey

variable {cs ds : List Char} {v : Int}

/-! ## What a numeral denotes -/

namespace Numeral

/-- The number that digits denote: each of them counts ten times what the next one does. -/
def value (ds : List Char) : Nat :=
  Nat.ofDigits 10 (ds.reverse.map fun d => d.toNat - '0'.toNat)

/-- Whether a text is a row of digits. -/
structure Digits (ds : List Char) : Prop where
  ne_nil : ds ≠ []
  isDigit : ∀ d ∈ ds, d.isDigit = true

/-- What number a text denotes. -/
inductive Denotes : List Char → Int → Prop
  | unsigned {ds : List Char} : Digits ds → Denotes ds (value ds)
  | plus {ds : List Char} : Digits ds → Denotes ('+' :: ds) (value ds)
  | minus {ds : List Char} : Digits ds → Denotes ('-' :: ds) (-value ds)

theorem value_cons (d : Char) (ds : List Char) :
    value (d :: ds) = 10 ^ ds.length * (d.toNat - '0'.toNat) + value ds := by
  rw [value, List.reverse_cons, List.map_append, Nat.ofDigits_append, List.length_map,
    List.length_reverse, List.map_singleton, Nat.ofDigits_singleton, Nat.add_comm]
  rfl

theorem ofDigitChars_eq_value (ds : List Char) : Nat.ofDigitChars 10 ds 0 = value ds := by
  induction ds with
  | nil => rfl
  | cons d ds ih =>
    rw [Nat.ofDigitChars_cons, Nat.ofDigitChars_eq_ofDigitChars_zero, ih, value_cons, Nat.mul_zero,
      Nat.zero_add]

theorem readDigits?_eq_some_iff {n : Nat} : readDigits? ds = some n ↔ Digits ds ∧ value ds = n := by
  rw [readDigits?, ofDigitChars_eq_value]
  split
  · next h =>
    rw [Bool.and_eq_true, Bool.not_eq_true', List.isEmpty_eq_false_iff, List.all_eq_true] at h
    rw [Option.some.injEq]
    exact (and_iff_right ⟨h.1, h.2⟩).symm
  · next h =>
    simp only [reduceCtorEq, false_iff]
    rintro ⟨hds, -⟩
    refine h ?_
    simpa [hds.ne_nil] using hds.isDigit

theorem read?_eq_some_iff : read? cs = some v ↔ Denotes cs v := by
  constructor
  · intro h
    unfold read? at h
    split at h
    all_goals
      obtain ⟨n, hn, rfl⟩ := Option.map_eq_some_iff.1 h
      obtain ⟨hds, rfl⟩ := readDigits?_eq_some_iff.1 hn
    · exact .plus hds
    · exact .minus hds
    · exact .unsigned hds
  · rintro (hds | hds | hds)
    all_goals have hread := readDigits?_eq_some_iff.2 ⟨hds, rfl⟩
    · rw [read?_of_isDigit hds.isDigit, hread]
      rfl
    · rw [read?, hread]
      rfl
    · rw [read?, hread]
      rfl

end Numeral

open Numeral

/-! ## Digits in 64 bits -/

namespace Integer

variable {join : Integer → Integer → Option Integer} {s : Int}

theorem not_fits_of_le {a b : Nat} (hs : s = 1 ∨ s = -1) (hab : a ≤ b) (h : ¬Fits (s * a)) :
    ¬Fits (s * b) := by
  unfold Fits at *
  obtain rfl | rfl := hs <;> omega

/-- What does not fit on the way away from zero does not fit at the end. -/
theorem ofInt?_bind {a b : Nat} (hs : s = 1 ∨ s = -1) (hab : a ≤ b) {f : Integer → Option Integer}
    (hf : ∀ m : Integer, m.toInt = s * a → f m = ofInt? (s * b)) :
    (ofInt? (s * a)).bind f = ofInt? (s * b) := by
  cases h : ofInt? (s * a) with
  | none =>
    have hout := not_fits_of_le hs hab (ofInt?_eq_none_iff_not_fits.1 h)
    exact (ofInt?_eq_none_iff_not_fits.2 hout).symm
  | some m => exact hf m (ofInt?_eq_some_iff.1 h)

theorem exists_digit? {c : Char} (hc : c.isDigit = true) :
    ∃ d, digit? c = some d ∧ d.toInt = (c.toNat - '0'.toNat : Nat) := by
  refine ⟨_, if_pos hc, Int64.toInt_ofNat_of_lt ?_⟩
  have hle : c.toNat ≤ '9'.toNat := by
    simp only [Char.isDigit, Bool.and_eq_true, decide_eq_true_eq] at hc
    exact hc.2
  exact Nat.lt_of_le_of_lt (Nat.le_trans (Nat.sub_le _ _) hle) (by decide)

theorem le_ofDigitChars (ds : List Char) (n : Nat) : n ≤ Nat.ofDigitChars 10 ds n := by
  rw [Nat.ofDigitChars_eq_ofDigitChars_zero]
  exact Nat.le_add_right_of_le (Nat.le_mul_of_pos_left n (by positivity))

theorem readDigits?_cons (n : Integer) (d : Char) (ds : List Char) :
    readDigits? join n (d :: ds) = (digit? d).bind fun digit => (n.mul? 10).bind fun tens =>
      (join tens digit).bind fun m => readDigits? join m ds := rfl

/-- Digits are read exactly. The induction is on the digits, with what has been read before them. -/
theorem readDigits?_eq (hs : s = 1 ∨ s = -1)
    (hjoin : ∀ m d, join m d = ofInt? (m.toInt + s * d.toInt)) (hds : ∀ d ∈ ds, d.isDigit = true)
    {n : Integer} {k : Nat} (hn : n.toInt = s * k) :
    readDigits? join n ds = ofInt? (s * Nat.ofDigitChars 10 ds k) := by
  induction ds generalizing n k with
  | nil =>
    rw [Nat.ofDigitChars_nil, ← hn, ofInt?_toInt]
    rfl
  | cons d ds ih =>
    rw [List.forall_mem_cons] at hds
    obtain ⟨i, hi, hvalue⟩ := exists_digit? hds.1
    have hten : (10 : Integer).toInt = 10 := rfl
    have htens : n.mul? 10 = ofInt? (s * (10 * k : Nat)) := by
      rw [mul?_eq, hn, hten, Nat.cast_mul, Nat.cast_ofNat, mul_assoc, mul_comm (k : Int)]
    have hdigit (m : Integer) (hm : m.toInt = s * (10 * k : Nat)) :
        join m i = ofInt? (s * (10 * k + (d.toNat - '0'.toNat) : Nat)) := by
      rw [hjoin, hm, hvalue, Nat.cast_add, mul_add]
    -- Ten times the number before and the number with the digit are checked, and neither is
    -- further from zero than the number at the end.
    have hle := le_ofDigitChars ds (10 * k + (d.toNat - '0'.toNat))
    rw [readDigits?_cons, hi, Option.bind_some, htens, Nat.ofDigitChars_cons]
    refine ofInt?_bind hs (Nat.le_trans (Nat.le_add_right _ _) hle) fun m hm => ?_
    rw [hdigit m hm]
    exact ofInt?_bind hs hle fun _ => ih hds.2

theorem readDigits?_eq_none {d : Char} (hd : d ∈ ds) (hdigit : ¬d.isDigit = true) (n : Integer) :
    readDigits? join n ds = none := by
  induction ds generalizing n with
  | nil => cases hd
  | cons e ds ih =>
    rw [readDigits?_cons]
    rcases List.mem_cons.1 hd with rfl | hd
    · rw [digit?, if_neg hdigit]
      rfl
    · simp only [Option.bind_eq_none_iff]
      exact fun _ _ _ _ m _ => ih hd m

theorem readDigits?_zero (hs : s = 1 ∨ s = -1)
    (hjoin : ∀ m d, join m d = ofInt? (m.toInt + s * d.toInt)) (hne : ds ≠ []) :
    readDigits? join 0 ds = (Numeral.readDigits? ds).bind fun n => ofInt? (s * n) := by
  by_cases hall : ∀ d ∈ ds, d.isDigit = true
  · have hzero : (0 : Integer).toInt = s * (0 : Nat) := by simp
    rw [readDigits?_eq hs hjoin hall hzero, ofDigitChars_eq_value,
      readDigits?_eq_some_iff.2 ⟨⟨hne, hall⟩, rfl⟩]
    rfl
  · obtain ⟨d, hd, hdigit⟩ : ∃ d ∈ ds, ¬d.isDigit = true := by simpa using hall
    have hnone : Numeral.readDigits? ds = none := by
      rw [Option.eq_none_iff_forall_not_mem]
      exact fun n hn => hall (readDigits?_eq_some_iff.1 hn).1.isDigit
    rw [readDigits?_eq_none hd hdigit, hnone]
    rfl

/-- A machine reads a numeral as the integer that it denotes. -/
theorem read?_eq (cs : List Char) : read? cs = (Numeral.read? cs).bind ofInt? := by
  have hadd (m d : Integer) : m.add? d = ofInt? (m.toInt + 1 * d.toInt) := by
    rw [add?_eq, one_mul]
  have hsub (m d : Integer) : m.sub? d = ofInt? (m.toInt + -1 * d.toInt) := by
    rw [sub?_eq, neg_one_mul, Int.sub_eq_add_neg]
  unfold Integer.read?
  split
  · rfl
  · rfl
  · rfl
  · next ds hds =>
    rw [readDigits?_zero (.inr rfl) hsub (by rintro rfl; exact hds rfl), Numeral.read?,
      Option.bind_map]
    simp
  · next ds hds =>
    rw [readDigits?_zero (.inl rfl) hadd (by rintro rfl; exact hds rfl), Numeral.read?,
      Option.bind_map]
    simp
  · next hnil _ _ hminus hplus =>
    rw [readDigits?_zero (.inl rfl) hadd hnil, Numeral.read?, Option.bind_map]
    · simp
    · exact hplus
    · exact hminus

theorem ofNumeral?_eq_some_iff {text : String} {n : Integer} :
    ofNumeral? text = some n ↔ Denotes text.toList n.toInt := by
  rw [ofNumeral?, Option.bind_eq_some_iff]
  constructor
  · rintro ⟨v, hv, hn⟩
    rw [ofInt?_eq_some_iff.1 hn]
    exact read?_eq_some_iff.1 hv
  · intro h
    exact ⟨n.toInt, read?_eq_some_iff.2 h, ofInt?_toInt n⟩

theorem ofNumeral?_eq_none_iff {text : String} :
    ofNumeral? text = none ↔ ∀ v, Denotes text.toList v → ¬Fits v := by
  rw [ofNumeral?, Option.bind_eq_none_iff]
  constructor
  · intro h v hv
    exact ofInt?_eq_none_iff_not_fits.1 (h v (read?_eq_some_iff.2 hv))
  · intro h v hv
    exact ofInt?_eq_none_iff_not_fits.2 (h v (read?_eq_some_iff.1 hv))

end Integer

/-! ## The literal -/

/-- An integer token of a text consists of digits. -/
theorem digits_of_mem_tokenize {source : String} {t : Token} (ht : t ∈ tokenize source)
    (hk : t.kind = .int) : Digits t.literal.toList := by
  obtain ⟨tail, hlead⟩ := exists_leads_of_mem_tokenize ht (by rw [hk]; decide)
  change t.word.kind = .int at hk
  rcases hlead.of_sign_eq_empty (by rw [hk]; rfl) with h | ⟨-, hne, hds⟩ | ⟨h, -⟩ | h
  · cases hk.symm.trans h
  · exact ⟨hne, hds⟩
  · cases hk.symm.trans h
  · cases hk.symm.trans h

theorem Numeral.Digits.denotes_iff (hds : Digits ds) : Denotes ds v ↔ v = value ds := by
  rw [← read?_eq_some_iff, read?_eq_some_iff.2 (.unsigned hds), Option.some.injEq]
  exact eq_comm

namespace Descent

variable {tape : Tape} {t : Token}

theorem runOn_expect {kinds : List Token.Kind} (hkinds : .eof ∉ kinds)
    (ht : tape.tokens[tape.index]? = some t) (hk : t.kind ∈ kinds) :
    (expect kinds).runOn tape = some (.ok t, { tape with index := tape.index + 1 }) := by
  have heof : t.kind ≠ .eof := fun he => hkinds (he ▸ hk)
  change (peek >>= _).runOn tape = _
  rw [runOn_bind, runOn_peek ht]
  simp only [Option.bind_some, hk, if_true]
  rw [runOn_advance ht, if_neg heof]

theorem runOn_integer (ht : tape.tokens[tape.index]? = some t) (hk : t.kind = .int) :
    integer.runOn tape = some (match Integer.ofNumeral? t.literal with
      | some n => .ok (.int n)
      | none => .error (.fault (.invalidInteger t.literal tape.index)),
      { tape with index := tape.index + 1 }) := by
  change (expect [.int] >>= _).runOn tape = _
  rw [runOn_bind, runOn_expect (by decide) ht (by simp [hk])]
  simp only [Option.bind_some]
  cases Integer.ofNumeral? t.literal <;> rfl

end Descent

open Descent in
/--
An integer token is read as the integer that its text denotes, by a machine too. It is refused with
its text and its place if the text denotes none of 64 bits, which for the digits of a text means
that they are too large. Every integer is read back from its rendering.
-/
theorem integer_literal_exact {tape : Tape} {t : Token}
    (ht : tape.tokens[tape.index]? = some t) (hk : t.kind = .int) :
    let text := t.literal.toList
    let next := { tape with index := tape.index + 1 }
    let refused := some (.error (.fault (.invalidInteger t.literal tape.index)), next)
    (∀ n, integer.runOn tape = some (.ok (.int n), next) ↔ Denotes text n.toInt) ∧
      (integer.runOn tape = refused ↔ ∀ v, Denotes text v → ¬(-2 ^ 63 ≤ v ∧ v < 2 ^ 63)) ∧
      (∀ n, Integer.read? text = some n ↔ Denotes text n.toInt) ∧
      (∀ source, t ∈ tokenize source →
        Digits text ∧ (integer.runOn tape = refused ↔ 2 ^ 63 ≤ value text)) ∧
      ∀ n, t.literal = (Expr.int n).render → integer.runOn tape = some (.ok (.int n), next) := by
  intro text next refused
  have hok (n : Integer) :
      integer.runOn tape = some (.ok (.int n), next) ↔ Denotes text n.toInt := by
    rw [← Integer.ofNumeral?_eq_some_iff, runOn_integer ht hk]
    cases Integer.ofNumeral? t.literal <;> simp [next]
  have hrefused : integer.runOn tape = refused ↔ ∀ v, Denotes text v → ¬Integer.Fits v := by
    rw [← Integer.ofNumeral?_eq_none_iff, runOn_integer ht hk]
    cases Integer.ofNumeral? t.literal <;> simp [refused, next]
  refine ⟨hok, hrefused, fun n => ?_, fun source hmem => ?_, fun n hrender => ?_⟩
  · rw [Integer.read?_eq, ← Integer.ofNumeral?_eq_some_iff]
    rfl
  · have hdigits : Digits text := digits_of_mem_tokenize hmem hk
    refine ⟨hdigits, ?_⟩
    simp only [hrefused, hdigits.denotes_iff, forall_eq, Integer.Fits]
    omega
  · rw [hok, ← Numeral.read?_eq_some_iff]
    exact (congrArg (fun s => Numeral.read? s.toList) hrender).trans (Numeral.read?_ofInt n.toInt)

open Descent in
/-- The bounds, with leading zeros, and the first number beyond them. -/
theorem integer_literal_exact_bounds :
    let token (text : String) : Token := ⟨.int, text, .start⟩
    let least := token "-9223372036854775808"
    let greatest := token "+0009223372036854775807"
    let beyond := token "09223372036854775808"
    let tape (t : Token) : Tape := ⟨#[t], 0⟩
    let next (t : Token) : Tape := ⟨#[t], 1⟩
    integer.runOn (tape least) = some (.ok (.int Int64.minValue), next least) ∧
      integer.runOn (tape greatest) = some (.ok (.int Int64.maxValue), next greatest) ∧
      beyond ∈ tokenize "09223372036854775808" ∧
      integer.runOn (tape beyond) =
        some (.error (.fault (.invalidInteger "09223372036854775808" 0)), next beyond) := by
  intro token least greatest beyond tape next
  have hbeyond : beyond ∈ tokenize "09223372036854775808" := by decide +kernel
  have atStart (t : Token) : (tape t).tokens[(tape t).index]? = some t := rfl
  obtain ⟨-, -, -, -, hleast⟩ := integer_literal_exact (atStart least) rfl
  obtain ⟨hok, -, hread, -⟩ := integer_literal_exact (atStart greatest) rfl
  obtain ⟨-, -, -, hrefused, -⟩ := integer_literal_exact (atStart beyond) rfl
  have hgreatest : Integer.read? greatest.literal.toList = some Int64.maxValue := by
    decide +kernel
  exact ⟨hleast _ rfl, (hok _).2 ((hread _).1 hgreatest), hbeyond,
    (hrefused _ hbeyond).2.2 (by decide +kernel)⟩

end Monkey

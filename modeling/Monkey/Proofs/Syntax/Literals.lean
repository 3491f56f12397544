import Monkey.Proofs.Syntax.Roundtrip
import Monkey.Proofs.Text.Utf8

/-! # Strings read back from a program

A program that is a string and nothing else is rendered as one token, and read as a string
again. Whether it is the same string is decided character by character: writing knows `\0`
and escapes with a code point, reading does not, and keeps such an escape as it stands.
-/

namespace Monkey

namespace Text

/-- Whether a character is written as `\0` or with its code point. -/
def Numeric (c : Char) : Prop :=
  escape c = ['\\', '0'] ∨ escape c = numericEscape c

/-- What reading makes of the written form of a character. -/
def reread (c : Char) : List Char :=
  unescape (escape c)

variable {c d : Char} {cs ds : List Char}

theorem legible_or_numeric (c : Char) : Legible c ∨ Numeric c := by
  obtain ⟨l, hl, hc⟩ | ⟨-, hc⟩ | ⟨-, hc⟩ := escape_cases c
  · obtain rfl | hmem : l = '0' ∨ l ∈ ['t', 'r', 'n', '"', '\\'] := by
      unfold escapeLetter? at hl
      split at hl <;> cases hl <;> decide
    · exact .inr (.inl hc)
    · exact .inl (.inr ⟨l, hmem, hc⟩)
  · exact .inl (.inl hc)
  · exact .inr (.inr hc)

/-! ## Escapes that reading keeps -/

theorem unescape_plain (h : ∀ d ∈ ds, d ≠ '\\') (cs : List Char) :
    unescape (ds ++ cs) = ds ++ unescape cs := by
  induction ds with
  | nil => rfl
  | cons d ds ih =>
    rw [List.forall_mem_cons] at h
    rw [List.cons_append, unescape, ih h.2, List.cons_append]
    exact fun _ _ hd _ => h.1 hd

theorem unescape_pair (h : letterMeaning? d = none) (cs : List Char) :
    unescape ('\\' :: d :: cs) = '\\' :: d :: unescape cs := by
  rw [unescape, h]

theorem Numeric.unescape_append (hc : Numeric c) (cs : List Char) :
    unescape (escape c ++ cs) = escape c ++ unescape cs := by
  obtain hc | hc := hc
  · rw [hc]
    exact unescape_pair rfl cs
  · have hplain : ∀ d ∈ '{' :: (Nat.toDigits 16 c.toNat ++ ['}']), d ≠ '\\' := by
      intro d hd
      simp only [List.mem_cons, List.mem_append, List.not_mem_nil, or_false] at hd
      obtain rfl | hd | rfl := hd
      · decide
      · exact (ne_of_mem_toDigits hd).2.1
      · decide
    have hnumeric : numericEscape c = '\\' :: 'u' :: '{' :: (Nat.toDigits 16 c.toNat ++ ['}']) :=
      rfl
    rw [hc, hnumeric, List.cons_append, List.cons_append, unescape_pair rfl,
      unescape_plain hplain]
    rfl

theorem Numeric.reread_eq (hc : Numeric c) : reread c = escape c := by
  have happend := hc.unescape_append []
  rwa [List.append_nil, unescape, List.append_nil] at happend

theorem Legible.reread_eq (hc : Legible c) : reread c = [c] := by
  have happend := unescape_escape hc []
  rwa [List.append_nil, unescape] at happend

theorem unescape_escapes_eq (cs : List Char) :
    unescape (cs.flatMap escape) = cs.flatMap reread := by
  induction cs with
  | nil => rfl
  | cons c cs ih =>
    rw [List.flatMap_cons, List.flatMap_cons, ← ih]
    obtain hc | hc := legible_or_numeric c
    · rw [unescape_escape hc, hc.reread_eq, List.singleton_append]
    · rw [hc.unescape_append, hc.reread_eq]

/-! ## They make a text longer -/

theorem Numeric.length_lt (hc : Numeric c) : 1 < (escape c).length := by
  obtain hc | hc := hc <;> rw [hc] <;> simp [numericEscape]

theorem Numeric.length_encodeUtf8_lt (hc : Numeric c) :
    c.utf8Size < (encodeUtf8 (escape c)).length := by
  obtain hc | hc := hc
  · have hnul : c = '\x00' := by
      obtain ⟨l, hl, hc'⟩ | ⟨hl, hc'⟩ | ⟨-, hc'⟩ := escape_cases c
      · cases hc.symm.trans hc'
        exact escapeLetter?_inj hl rfl
      · cases hc.symm.trans hc'
      · cases hc.symm.trans hc'
    rw [hc, hnul]
    decide
  · -- No character takes more than four bytes, and the escape has at least five characters.
    have hfour := c.utf8Size_le_four
    have hdigits := List.length_pos_iff.2 (Nat.toDigits_ne_nil (b := 16) (n := c.toNat))
    have hfive : 5 ≤ (numericEscape c).length := by
      simp only [numericEscape, List.length_append, List.length_cons, List.length_nil]
      omega
    have hle := length_le_encodeUtf8 (numericEscape c)
    rw [hc]
    omega

/-- A measure of texts that an escape with a number raises is raised by reading one back. -/
theorem measure_lt_reread (size : List Char → Nat)
    (happend : ∀ xs ys, size (xs ++ ys) = size xs + size ys)
    (hlt : ∀ c, Numeric c → size [c] < size (escape c)) (h : ∃ c ∈ cs, Numeric c) :
    size cs < size (cs.flatMap reread) := by
  have hle (cs : List Char) : size cs ≤ size (cs.flatMap reread) := by
    induction cs with
    | nil => exact Nat.le_refl _
    | cons c cs ih =>
      rw [List.flatMap_cons, happend, ← List.singleton_append, happend]
      obtain hc | hc := legible_or_numeric c
      · rw [hc.reread_eq]
        omega
      · have hsize := hlt c hc
        rw [hc.reread_eq]
        omega
  obtain ⟨c, hmem, hc⟩ := h
  obtain ⟨xs, ys, rfl⟩ := List.append_of_mem hmem
  have hxs := hle xs
  have hys := hle ys
  have hsize := hlt c hc
  rw [← List.singleton_append, List.flatMap_append, List.flatMap_append, List.flatMap_singleton,
    hc.reread_eq]
  simp only [happend]
  omega

variable {s : String}

theorem unquote_quote_longer (h : ∃ c ∈ s.toList, Numeric c) :
    s.length < (unquote (quote s)).length ∧ s.utf8ByteSize < (unquote (quote s)).utf8ByteSize := by
  rw [unquote_quote_eq, unescape_escapes_eq, String.length_ofList, utf8ByteSize_eq,
    utf8ByteSize_eq, String.toList_ofList]
  constructor
  · rw [← String.length_toList]
    exact measure_lt_reread List.length (fun _ _ => List.length_append)
      (fun _ => Numeric.length_lt) h
  · have happend (xs ys : List Char) : (encodeUtf8 (xs ++ ys)).length =
        (encodeUtf8 xs).length + (encodeUtf8 ys).length := by
      rw [encodeUtf8_append, List.length_append]
    refine measure_lt_reread (fun cs => (encodeUtf8 cs).length) happend (fun c hc => ?_) h
    rw [encodeUtf8_singleton, String.length_utf8EncodeChar]
    exact hc.length_encodeUtf8_lt

theorem unquote_quote_eq_self_iff : unquote (quote s) = s ↔ ∀ c ∈ s.toList, ¬Numeric c := by
  constructor
  · intro heq c hmem hc
    have hlt := (unquote_quote_longer ⟨c, hmem, hc⟩).1
    rw [heq] at hlt
    exact absurd hlt (Nat.lt_irrefl _)
  · intro h
    exact unquote_quote fun c hmem => (legible_or_numeric c).resolve_right (h c hmem)

end Text

namespace Program

open Word Piece

/-- The program that is a string. -/
def ofString (s : String) : Program := [.expr (.str s)]

theorem wellFormed_ofString (s : String) : Stmt.AllWellFormed (ofString s) := ⟨trivial, trivial⟩

theorem pieces_ofString (s : String) : (ofString s).pieces = [token (quoted s)] := rfl

theorem tokenize_ofString (s : String) : tokenize (ofString s).render =
    [⟨.string, Text.quote s, .start⟩,
      .endOfText (Position.start.after (Text.quote s).toList)] := by
  have hpieces := decomposes_render (wellFormed_ofString s)
  rw [tokenize, ← hpieces.texts_eq, tokensFrom_texts hpieces.cut, pieces_ofString]
  simp [tokensAt, quoted]

theorem ofSource_ofString (s : String) :
    ofSource (ofString s).render = .ok (ofString (Text.unquote (Text.quote s))) := by
  have hstr : Spells [quoted s] (.expr .call (.str (Text.unquote (Text.quote s)))) :=
    .str (by rw [String.ofList_toList])
  refine ofSource_of_spells (decomposes_render (wellFormed_ofString s)) ?_
  have hstatements : Spells ([quoted s] ++ [])
      (.statements (ofString (Text.unquote (Text.quote s)))) := by
    refine .nextStatement (fun next hnext => .bare hstr fun t ht => ?_) .noStatements
    cases ht
    cases hnext
  exact hstatements

/--
A program that is a string is rendered as the written form of this string. It is one token to the
lexer, and read as a program that is a string. This is the same string exactly if no character of it
is written as `\0` or with its code point; otherwise it is longer, in characters and in bytes.
-/
theorem string_read_back (s : String) :
    (ofString s).render = Text.quote s ∧
      tokenize (ofString s).render = [⟨.string, Text.quote s, .start⟩,
        .endOfText (Position.start.after (Text.quote s).toList)] ∧
      ∃ t, ofSource (ofString s).render = .ok (ofString t) ∧
        (t = s ↔ ∀ c ∈ s.toList, ¬Text.Numeric c) ∧
        (t ≠ s → s.length < t.length ∧ s.utf8ByteSize < t.utf8ByteSize) := by
  refine ⟨by simp [render, ofString, Stmt.render, Expr.render], tokenize_ofString s, _,
    ofSource_ofString s, Text.unquote_quote_eq_self_iff, fun hne => ?_⟩
  apply Text.unquote_quote_longer
  simpa using mt Text.unquote_quote_eq_self_iff.2 hne

end Program

end Monkey

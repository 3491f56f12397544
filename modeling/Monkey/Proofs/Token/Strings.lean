import Monkey.Proofs.Token.Decomposition

/-! # Strings segment by segment

What a string token has between its quotes is a row of segments, each of them a plain character
or a backslash with the character that it takes, and of one row only. Resolving the escapes
takes a text segment by segment as well, and knows one more, a backslash with nothing behind it.
Of the text of a string it takes the very segments that the lexer has passed over.
-/

namespace Monkey

namespace Text

/-- What is taken from the front of a text at a time when its escapes are resolved. -/
inductive Segment
  | plain (c : Char)
  /-- A backslash and the character behind it. -/
  | pair (c : Char)
  /-- A backslash at the end of the text. -/
  | dangling
  deriving DecidableEq, Repr

namespace Segment

/-- The text of a segment. -/
def spelling : Segment → List Char
  | plain c => [c]
  | pair c => ['\\', c]
  | dangling => ['\\']

/-- What a segment stands for: five pairs for one character, and every other segment for itself. -/
def meaning : Segment → List Char
  | pair 'n' => ['\n']
  | pair 't' => ['\t']
  | pair 'r' => ['\r']
  | pair '"' => ['"']
  | pair '\\' => ['\\']
  | u => u.spelling

/-- Whether a segment may stand between the quotes of a string. -/
def Inner : Segment → Prop
  | plain c => c ≠ '"' ∧ c ≠ '\\'
  | pair _ => True
  | dangling => False

end Segment

/-- The segments that are taken from a text, one after the other. -/
def segments : List Char → List Segment
  | [] => []
  | ['\\'] => [.dangling]
  | '\\' :: c :: cs => .pair c :: segments cs
  | c :: cs => .plain c :: segments cs

/-- Whether a text is split into segments that may stand between quotes. -/
def Splits (us : List Segment) (body : List Char) : Prop :=
  (∀ u ∈ us, u.Inner) ∧ us.flatMap Segment.spelling = body

/-- A text without its two quotes, if it has them both. -/
def strip? : List Char → Option (List Char)
  | '"' :: cs => if cs.getLast? = some '"' then some cs.dropLast else none
  | _ => none

/-- The literal of a string with a text between its quotes. -/
def enclose (body : List Char) : String :=
  String.ofList ('"' :: (body ++ ['"']))

variable {us vs : List Segment} {cs body body' : List Char}

/-! ## Taking segments -/

theorem segments_pair (c : Char) (cs : List Char) :
    segments ('\\' :: c :: cs) = .pair c :: segments cs := rfl

theorem segments_plain {c : Char} (hc : c ≠ '\\') (cs : List Char) :
    segments (c :: cs) = .plain c :: segments cs := by
  rw [segments]
  · rintro rfl
    exact absurd rfl hc
  · rintro d ds rfl
    exact absurd rfl hc

theorem Segment.meaning_pair (c : Char) :
    (pair c).meaning = match letterMeaning? c with
      | some d => [d]
      | none => ['\\', c] := by
  unfold letterMeaning? Segment.meaning
  split <;> simp_all [spelling]

/-- Escapes are resolved segment by segment. -/
theorem unescape_eq (cs : List Char) : unescape cs = (segments cs).flatMap Segment.meaning := by
  fun_induction segments cs with
  | case1 => rfl
  | case2 => rfl
  | case3 c cs ih =>
    rw [unescape, List.flatMap_cons, ← ih, Segment.meaning_pair]
    cases letterMeaning? c <;> rfl
  | case4 c cs hlast hslash ih =>
    rw [List.flatMap_cons, ← ih, unescape]
    · rfl
    · rintro d ds rfl rfl
      exact hslash d ds rfl rfl

/-- Whatever splits a text is what is taken from it. -/
theorem Splits.segments_eq (h : Splits us body) : segments body = us := by
  induction us generalizing body with
  | nil =>
    obtain ⟨-, rfl⟩ := h
    rfl
  | cons u us ih =>
    obtain ⟨hinner, rfl⟩ := h
    rw [List.forall_mem_cons] at hinner
    have hrest : segments (us.flatMap Segment.spelling) = us := ih ⟨hinner.2, rfl⟩
    rw [List.flatMap_cons]
    cases u with
    | plain c => exact (segments_plain hinner.1.2 _).trans (congrArg _ hrest)
    | pair c => exact (segments_pair c _).trans (congrArg _ hrest)
    | dangling => exact hinner.1.elim

theorem splits_iff (h : Splits us body) : Splits vs body ↔ vs = us := by
  constructor
  · intro hvs
    rw [← hvs.segments_eq, h.segments_eq]
  · rintro rfl
    exact h

theorem Splits.append (h : Splits us body) (h' : Splits vs body') :
    Splits (us ++ vs) (body ++ body') := by
  constructor
  · intro u hu
    rcases List.mem_append.1 hu with hu | hu
    · exact h.1 u hu
    · exact h'.1 u hu
  · rw [List.flatMap_append, h.2, h'.2]

theorem Splits.dangling_not_mem (h : Splits us body) : .dangling ∉ us :=
  fun hmem => h.1 _ hmem

theorem Splits.unescape_eq (h : Splits us body) : unescape body = us.flatMap Segment.meaning := by
  rw [Text.unescape_eq, h.segments_eq]

theorem Splits.unescape_append (h : Splits us body) (h' : Splits vs body') :
    unescape (body ++ body') = unescape body ++ unescape body' := by
  rw [(h.append h').unescape_eq, List.flatMap_append, h.unescape_eq, h'.unescape_eq]

/-! ## Stripping quotes -/

theorem stripQuotes_eq (cs : List Char) : stripQuotes cs = (strip? cs).getD cs := by
  unfold stripQuotes
  split
  · rw [strip?]
    split <;> rfl
  · next hquote =>
    rw [strip?]
    · rfl
    · exact hquote

theorem enclose_inj (h : enclose body = enclose body') : body = body' := by
  have hlist := congrArg String.toList h
  simpa [enclose] using hlist

theorem strip?_enclose (body : List Char) : strip? (enclose body).toList = some body := by
  simp [enclose, strip?]

theorem unquote_enclose (body : List Char) : (unquote (enclose body)).toList = unescape body := by
  rw [unquote, stripQuotes_eq, strip?_enclose, Option.getD_some, String.toList_ofList]

/-- No segment that may stand between quotes begins with one. -/
theorem Splits.strip?_eq_none (h : Splits us body) : strip? body = none := by
  obtain ⟨hinner, rfl⟩ := h
  cases us with
  | nil => rfl
  | cons u us =>
    have hu := hinner u List.mem_cons_self
    rw [List.flatMap_cons, strip?]
    rintro cs hcs
    cases u with
    | plain c =>
      cases hcs
      exact hu.1 rfl
    | pair c => cases hcs
    | dangling => cases hcs

/-- A text without quotes around it is resolved as it stands. -/
theorem Splits.unquote_eq (h : Splits us body) :
    (unquote (String.ofList body)).toList = unescape body := by
  rw [unquote, String.toList_ofList, String.toList_ofList, stripQuotes_eq, h.strip?_eq_none,
    Option.getD_none]

end Text

/-! ## The strings of a text -/

/-- What a string has between its quotes is split into segments. -/
theorem StringBody.splits {body : List Char} (h : StringBody body) :
    Text.Splits (Text.segments body) body := by
  induction h with
  | nil => exact ⟨nofun, rfl⟩
  | plain hquote hslash _ ih =>
    rw [Text.segments_plain hslash]
    refine ⟨List.forall_mem_cons.2 ⟨⟨hquote, hslash⟩, ih.1⟩, ?_⟩
    rw [List.flatMap_cons, ih.2]
    rfl
  | pair _ ih =>
    rw [Text.segments_pair]
    refine ⟨List.forall_mem_cons.2 ⟨trivial, ih.1⟩, ?_⟩
    rw [List.flatMap_cons, ih.2]
    rfl

/-- Every string token of a text is a body between quotes. -/
theorem exists_body_of_mem_tokenize {source : String} {t : Token} (ht : t ∈ tokenize source)
    (hk : t.kind = .string) : ∃ body, StringBody body ∧ t.literal = Text.enclose body := by
  obtain ⟨tail, hlead⟩ := exists_leads_of_mem_tokenize ht (by rw [hk]; decide)
  change t.word.kind = .string at hk
  rcases hlead.of_sign_eq_empty (by rw [hk]; rfl) with h | ⟨h, -⟩ | ⟨-, body, hbody, htext⟩ | h
  · cases hk.symm.trans h
  · cases hk.symm.trans h
  · refine ⟨body, hbody, ?_⟩
    rw [← String.toList_inj, Text.enclose, String.toList_ofList]
    exact htext
  · cases hk.symm.trans h

open Text in
/--
A string token has two quotes and between them a text that is split into plain characters and
pairs with a backslash, in one way only. When it is unquoted both quotes are found, and those very
segments are taken, never a backslash at the end, and replaced by what they stand for. Two such
texts in a row give what each of them gives, with quotes around them and without.
-/
theorem string_segmentwise {source : String} {t : Token} (ht : t ∈ tokenize source)
    (hk : t.kind = .string) :
    ∃ body us, t.literal = enclose body ∧ (∀ vs, Splits vs body ↔ vs = us) ∧
      strip? t.literal.toList = some body ∧ segments body = us ∧ .dangling ∉ segments body ∧
      (unquote t.literal).toList = us.flatMap Segment.meaning ∧
      ∀ source' t' body', t' ∈ tokenize source' → t'.kind = .string → t'.literal = enclose body' →
        unescape (body ++ body') = unescape body ++ unescape body' ∧
        unquote (enclose (body ++ body')) = unquote t.literal ++ unquote t'.literal ∧
        unquote (String.ofList (body ++ body')) =
          unquote (String.ofList body) ++ unquote (String.ofList body') := by
  obtain ⟨body, hbody, hliteral⟩ := exists_body_of_mem_tokenize ht hk
  have hsplits := hbody.splits
  refine ⟨body, segments body, hliteral, fun _ => splits_iff hsplits, ?_, rfl,
    hsplits.dangling_not_mem, ?_, ?_⟩
  · rw [hliteral, strip?_enclose]
  · rw [hliteral, unquote_enclose, unescape_eq]
  · intro source' t' body' ht' hk' hliteral'
    obtain ⟨other, hother, hliteral''⟩ := exists_body_of_mem_tokenize ht' hk'
    obtain rfl : body' = other := enclose_inj (hliteral'.symm.trans hliteral'')
    have hsplits' := hother.splits
    have happend := hsplits.unescape_append hsplits'
    refine ⟨happend, ?_, ?_⟩
    · rw [← String.toList_inj, String.toList_append, hliteral, hliteral', unquote_enclose,
        unquote_enclose, unquote_enclose, happend]
    · rw [← String.toList_inj, String.toList_append, (hsplits.append hsplits').unquote_eq,
        hsplits.unquote_eq, hsplits'.unquote_eq, happend]

open Text in
/-- A backslash, a quote, an unknown letter and a line feed, each behind a backslash. -/
theorem string_segmentwise_pairs :
    let source := "\"a\\\\\\\"\\q\\\n\"+\"\\n\""
    let body := "a\\\\\\\"\\q\\\n".toList
    let us : List Segment := [.plain 'a', .pair '\\', .pair '"', .pair 'q', .pair '\n']
    let t : Token := ⟨.string, enclose body, .start⟩
    t ∈ tokenize source ∧ (∀ vs, Splits vs body ↔ vs = us) ∧
      unquote t.literal = "a\\\"\\q\\\n" ∧
      unquote (enclose (body ++ ['\\', 'n'])) = "a\\\"\\q\\\n\n" := by
  intro source body us t
  have ht : t ∈ tokenize source := by decide +kernel
  have ht' : ⟨.string, enclose ['\\', 'n'], ⟨2, 3⟩⟩ ∈ tokenize source := by decide +kernel
  obtain ⟨body', us', hliteral, hsplits, -, hsegments, -, hmeaning, happend⟩ :=
    string_segmentwise ht rfl
  obtain rfl : body = body' := enclose_inj hliteral
  obtain rfl : us = us' := hsegments
  have hvalue : unquote t.literal = "a\\\"\\q\\\n" := String.toList_inj.1 hmeaning
  refine ⟨ht, hsplits, hvalue, ?_⟩
  rw [(happend _ _ _ ht' rfl rfl).2.1, hvalue]
  rfl

end Monkey

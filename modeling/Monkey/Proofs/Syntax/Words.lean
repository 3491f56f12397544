import Monkey.Proofs.Token.Decomposition

/-! # Words that are read back

A text can be written word by word, each followed by a space. If every word is one
that the lexer takes whole, the tokens of the text are these words. This holds of the
signs and reserved words, of names, of decimal numerals, and of every text between
quotes where quotes and backslashes are escaped.
-/

namespace Monkey

namespace Word

/-- The word of an integer. -/
def int (n : Integer) : Word := ⟨.int, n.toText.toList⟩

/-- A character between quotes: a quote or a backslash stands after a backslash. -/
def guarded (c : Char) : List Char :=
  if c = '"' ∨ c = '\\' then ['\\', c] else [c]

/-- The word of a string. -/
def str (s : String) : Word := ⟨.string, '"' :: (s.toList.flatMap guarded ++ ['"'])⟩

/-- Whether a word leads wherever a space follows it. -/
def IsRead (w : Word) : Prop :=
  ∀ rest, w.Leads (' ' :: rest)

/-- Words with a space after each of them. -/
def spaced (ws : List Word) : List Char :=
  ws.flatMap fun w => w.text ++ [' ']

end Word

namespace Piece

/-- The pieces of words with a space after each of them. -/
def ofWords (ws : List Word) : List Piece :=
  ws.flatMap fun w => [token w, layout ' ']

theorem words_ofWords (ws : List Word) : words (ofWords ws) = ws := by
  induction ws with
  | nil => rfl
  | cons w ws ih => exact congrArg (w :: ·) ih

theorem texts_ofWords (ws : List Word) : texts (ofWords ws) = Word.spaced ws := by
  induction ws with
  | nil => rfl
  | cons w ws ih =>
    rw [Word.spaced, List.flatMap_cons, ← Word.spaced, ← ih, List.append_assoc]
    rfl

/-- Words that are read are the tokens of the text that they make. -/
theorem decomposes_spaced {ws : List Word} (h : ∀ w ∈ ws, w.IsRead) :
    Decomposes (Word.spaced ws) (ofWords ws) where
  texts_eq := texts_ofWords ws
  cut := by
    induction ws with
    | nil => trivial
    | cons w ws ih =>
      rw [List.forall_mem_cons] at h
      exact ⟨h.1 _, List.mem_cons_self, ih h.2⟩

end Piece

namespace Word

/-! ## Words that are read -/

theorem ends_space (rest : List Char) : Ends (' ' :: rest) := by
  rintro _ ⟨⟩
  decide

theorem isRead_name {x : String} (h : IsName x) : (name x).IsRead :=
  fun rest => .name h (ends_space rest)

theorem leads_sign {k : Token.Kind} (hk : k.sign ≠ "") {rest : List Char} (hrest : Ends rest)
    (hhead : rest.head? ≠ some '=') : (sign k).Leads rest := by
  cases k with
  | illegal | eof | ident | int | string => exact absurd rfl hk
  | fnWord | letWord | returnWord | ifWord | elseWord | trueWord | falseWord =>
    exact .reserved rfl hrest
  | eq | notEq => exact .double (by decide)
  | assign | bang => exact .half (by decide) hhead
  | _ => exact .closed (by decide)

theorem isRead_sign {k : Token.Kind} (hk : k.sign ≠ "") : (sign k).IsRead :=
  fun rest => leads_sign hk (ends_space rest) (by simp)

/-- An integer that is not negative is written in digits. -/
theorem toText_eq {n : Integer} (hn : 0 ≤ n.toInt) :
    n.toText.toList = Nat.toDigits 10 n.toInt.toNat := by
  obtain ⟨k, hk⟩ := Int.eq_ofNat_of_zero_le hn
  rw [Integer.toText, hk]
  exact String.toList_ofList

theorem isDigit_toText {n : Integer} (hn : 0 ≤ n.toInt) :
    ∀ c ∈ n.toText.toList, c.isDigit = true := by
  intro c hc
  rw [toText_eq hn] at hc
  exact Numeral.isDigit_of_mem_toDigits hc

theorem leads_int {n : Integer} (hn : 0 ≤ n.toInt) {rest : List Char} (hrest : Ends rest) :
    (int n).Leads rest := by
  refine .numeral ?_ (isDigit_toText hn) fun c hc hdigit => hrest c hc (.inl ?_)
  · rw [toText_eq hn]
    exact Nat.toDigits_ne_nil
  · simp [Char.isAlphanum, hdigit]

theorem isRead_int {n : Integer} (hn : 0 ≤ n.toInt) : (int n).IsRead :=
  fun rest => leads_int hn (ends_space rest)

theorem ofNumeral?_int {n : Integer} (hn : 0 ≤ n.toInt) :
    Integer.ofNumeral? (String.ofList (int n).text) = some n := by
  have hread : Numeral.read? n.toText.toList = some n.toInt := by
    rw [Numeral.read?_of_isDigit (isDigit_toText hn), toText_eq hn,
      Numeral.readDigits?_toDigits, Option.map_some]
    exact congrArg some (Int.toNat_of_nonneg hn)
  rw [Integer.ofNumeral?, String.toList_ofList, int, hread, Option.bind_some,
    Integer.ofInt?_toInt]

/-! ## Text between quotes -/

theorem guarded_of_mem {c : Char} (h : c = '"' ∨ c = '\\') : guarded c = ['\\', c] :=
  if_pos h

theorem guarded_of_not_mem {c : Char} (h : ¬(c = '"' ∨ c = '\\')) : guarded c = [c] :=
  if_neg h

theorem stringBody_guarded (cs : List Char) : StringBody (cs.flatMap guarded) := by
  induction cs with
  | nil => exact .nil
  | cons c cs ih =>
    rw [List.flatMap_cons]
    by_cases hc : c = '"' ∨ c = '\\'
    · rw [guarded_of_mem hc]
      exact .pair ih
    · obtain ⟨hquote, hslash⟩ := not_or.1 hc
      rw [guarded_of_not_mem hc]
      exact .plain hquote hslash ih

theorem isRead_str (s : String) : (str s).IsRead :=
  fun _ => .string (stringBody_guarded s.toList)

theorem unescape_guarded (cs : List Char) : Text.unescape (cs.flatMap guarded) = cs := by
  induction cs with
  | nil => rfl
  | cons c cs ih =>
    rw [List.flatMap_cons]
    by_cases hc : c = '"' ∨ c = '\\'
    · have hmeaning : Text.letterMeaning? c = some c := by
        obtain rfl | rfl := hc <;> rfl
      rw [guarded_of_mem hc]
      simp only [List.cons_append, List.nil_append, Text.unescape, hmeaning, ih]
    · obtain ⟨-, hslash⟩ := not_or.1 hc
      rw [guarded_of_not_mem hc, List.cons_append, List.nil_append, Text.unescape]
      · rw [ih]
      · exact fun _ _ h _ => hslash h

theorem unquote_str (s : String) : Text.unquote (String.ofList (str s).text) = s := by
  have hstrip : Text.stripQuotes (str s).text = s.toList.flatMap guarded := by
    simp [str, Text.stripQuotes]
  rw [Text.unquote, String.toList_ofList, hstrip, unescape_guarded, String.ofList_toList]

end Word

end Monkey

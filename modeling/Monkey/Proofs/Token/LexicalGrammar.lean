import Monkey.Proofs.Syntax.WellFormed

/-! # The lexical grammar

`w.Leads rest` says that the word `w` is the token at the front of a text that goes on
with `rest`. Each kind of token has a rule of its own: names, reserved words and
numerals are as long as they can be, a string ends at the first quote that no
backslash takes, and what begins no other token is a token of one character. The
lexer cuts off exactly the words that lead.
-/

namespace Monkey

/-- What a token is apart from its place: a kind and a text. -/
structure Word where
  kind : Token.Kind
  text : List Char
  deriving DecidableEq, Repr

/-- The word of a token. -/
def Token.word (t : Token) : Word := ⟨t.kind, t.literal.toList⟩

/-- The text of a sign or a reserved word; the other kinds have no fixed text. -/
def Token.Kind.sign : Token.Kind → String
  | lparen => "("
  | rparen => ")"
  | lbrace => "\x7b"
  | rbrace => "\x7d"
  | comma => ","
  | semicolon => ";"
  | plus => "+"
  | minus => "-"
  | asterisk => "*"
  | slash => "/"
  | lt => "<"
  | gt => ">"
  | assign => "="
  | bang => "!"
  | eq => "=="
  | notEq => "!="
  | fnWord => "fn"
  | letWord => "let"
  | returnWord => "return"
  | ifWord => "if"
  | elseWord => "else"
  | trueWord => "true"
  | falseWord => "false"
  | illegal | eof | ident | int | string => ""

/-- The signs of one character that are a token before any text. -/
def Token.Kind.closed : List Token.Kind :=
  [.lparen, .rparen, .lbrace, .rbrace, .comma, .semicolon, .plus, .minus, .asterisk, .slash, .lt,
    .gt]

/-- What a string has between its quotes: a backslash takes the character after it. -/
inductive StringBody : List Char → Prop
  | nil : StringBody []
  | plain {c : Char} {cs : List Char} : c ≠ '"' → c ≠ '\\' → StringBody cs → StringBody (c :: cs)
  | pair {c : Char} {cs : List Char} : StringBody cs → StringBody ('\\' :: c :: cs)

namespace Word

/-- The word of a kind with a fixed text. -/
def sign (k : Token.Kind) : Word := ⟨k, k.sign.toList⟩

/-- The word of a name. -/
def name (x : String) : Word := ⟨.ident, x.toList⟩

/-- Whether no name and no numeral goes on with a text. -/
def Ends (rest : List Char) : Prop :=
  ∀ c ∈ rest.head?, ¬(c.isAlphanum ∨ c = '_')

/-- The token at the front of a text that goes on with `rest`. -/
inductive Leads : Word → List Char → Prop
  | reserved {k : Token.Kind} {rest : List Char} : k.isKeyword → Ends rest → Leads (sign k) rest
  | name {x : String} {rest : List Char} : IsName x → Ends rest → Leads (name x) rest
  | numeral {ds rest : List Char} : ds ≠ [] → (∀ d ∈ ds, d.isDigit) →
      (∀ c ∈ rest.head?, ¬c.isDigit) → Leads ⟨.int, ds⟩ rest
  | double {k : Token.Kind} {rest : List Char} : k ∈ [.eq, .notEq] → Leads (sign k) rest
  | closed {k : Token.Kind} {rest : List Char} : k ∈ Token.Kind.closed → Leads (sign k) rest
  /-- One of the signs that could be the first half of a double one. -/
  | half {k : Token.Kind} {rest : List Char} : k ∈ [.assign, .bang] → rest.head? ≠ some '=' →
      Leads (sign k) rest
  | string {body rest : List Char} : StringBody body →
      Leads ⟨.string, '"' :: (body ++ ['"'])⟩ rest
  /-- A quote that nothing closes is a token of its own, and what follows it is read anew. -/
  | unclosed {rest : List Char} :
      (∀ body tail, StringBody body → rest ≠ body ++ '"' :: tail) → Leads ⟨.illegal, ['"']⟩ rest
  | other {c : Char} {rest : List Char} : Lexer.isLayout c = false →
      ¬(c.isAlphanum ∨ c = '_' ∨ c = '"') → (∀ k : Token.Kind, k.sign.toList ≠ [c]) →
      Leads ⟨.illegal, [c]⟩ rest

end Word

/-! ## What leads is cut off -/

theorem Token.Kind.sign_of_keyword? {s : String} {k : Token.Kind} (h : keyword? s = some k) :
    k.sign = s := by
  unfold keyword? at h
  split at h <;> cases h <;> rfl

namespace Lexer

open Word

theorem takeWhile_append_of_stop {p : Char → Bool} {cs rest : List Char}
    (h : ∀ c ∈ cs, p c = true) (hstop : ∀ c ∈ rest.head?, p c = false) :
    (cs ++ rest).takeWhile p = cs := by
  rw [List.takeWhile_append_of_pos h]
  cases rest with
  | nil => simp
  | cons d ds => simp [hstop d rfl]

theorem dropWhile_append_of_stop {p : Char → Bool} {cs rest : List Char}
    (h : ∀ c ∈ cs, p c = true) (hstop : ∀ c ∈ rest.head?, p c = false) :
    (cs ++ rest).dropWhile p = rest := by
  rw [List.dropWhile_append_of_pos h]
  cases rest with
  | nil => rfl
  | cons d ds => simp [hstop d rfl]

theorem stop_of_dropWhile (p : Char → Bool) (cs : List Char) :
    ∀ c ∈ (cs.dropWhile p).head?, p c = false := by
  intro c hc
  have hnot := List.head?_dropWhile_not p cs
  rw [Option.mem_def.1 hc] at hnot
  exact hnot

theorem ends_iff {rest : List Char} : Ends rest ↔ ∀ c ∈ rest.head?, isWordRest c = false := by
  unfold Ends
  simp only [← isWordRest_iff, Bool.not_eq_true]

theorem lexeme_word {c : Char} {cs rest : List Char} (hstart : isWordStart c = true)
    (hcs : ∀ d ∈ cs, isWordRest d = true) (hrest : Ends rest) :
    lexeme c (cs ++ rest) = ⟨wordKind (c :: cs), c :: cs, rest⟩ := by
  rw [ends_iff] at hrest
  unfold lexeme
  rw [if_pos hstart, takeWhile_append_of_stop hcs hrest, dropWhile_append_of_stop hcs hrest]

/-- A character of a class that has no layout is not layout. -/
theorem isLayout_eq_false {p : Char → Bool}
    (hp : p ' ' = false ∧ p '\t' = false ∧ p '\r' = false ∧ p '\n' = false) {c : Char}
    (hc : p c = true) : isLayout c = false := by
  obtain ⟨hspace, htab, hreturn, hfeed⟩ := hp
  refine Bool.eq_false_iff.2 fun hlayout => ?_
  simp only [isLayout, Bool.or_eq_true, beq_iff_eq] at hlayout
  obtain ((rfl | rfl) | rfl) | rfl := hlayout <;> simp_all

theorem not_isWordStart_of_isDigit {c : Char} (h : c.isDigit = true) : isWordStart c = false := by
  have hnine : c.val ≤ '9'.val := of_decide_eq_true (Bool.and_eq_true_iff.1 h).2
  refine Bool.eq_false_iff.2 fun hstart => ?_
  obtain halpha | rfl := isWordStart_iff.1 hstart
  · obtain hupper | hlower : c.isUpper = true ∨ c.isLower = true := Bool.or_eq_true_iff.1 halpha
    · have hle : 'A'.val ≤ c.val := (of_decide_eq_true hupper).1
      exact absurd (UInt32.le_trans hle hnine) (by decide)
    · have hle : 'a'.val ≤ c.val := of_decide_eq_true (Bool.and_eq_true_iff.1 hlower).1
      exact absurd (UInt32.le_trans hle hnine) (by decide)
  · exact absurd hnine (by decide)

theorem lexeme_digits {c : Char} {cs rest : List Char} (hdigits : ∀ d ∈ c :: cs, d.isDigit = true)
    (hrest : ∀ d ∈ rest.head?, d.isDigit = false) :
    lexeme c (cs ++ rest) = ⟨.int, c :: cs, rest⟩ := by
  have hc := hdigits c List.mem_cons_self
  have hcs (d : Char) (hd : d ∈ cs) : d.isDigit = true := hdigits d (List.mem_cons_of_mem c hd)
  unfold lexeme
  rw [if_neg (by simp [not_isWordStart_of_isDigit hc]), if_pos hc,
    takeWhile_append_of_stop hcs hrest, dropWhile_append_of_stop hcs hrest]

/-- The quote after the body of a string closes it. -/
theorem closing?_of_body {body : List Char} (h : StringBody body) (rest : List Char) :
    closing? (body ++ '"' :: rest) = some (body ++ ['"'], rest) := by
  induction h with
  | nil => rfl
  | plain hquote hslash _ ih =>
    rw [List.cons_append, closing?, ih]
    · rfl
    · exact hquote
    · exact fun _ _ h _ => hslash h
  | pair _ ih =>
    rw [List.cons_append, List.cons_append, closing?, ih]
    rfl

theorem body_of_closing? {cs closed rest : List Char} (h : closing? cs = some (closed, rest)) :
    ∃ body, StringBody body ∧ closed = body ++ ['"'] := by
  fun_induction closing? cs generalizing closed with
  | case1 => simp at h
  | case2 cs =>
    simp only [Option.some.injEq, Prod.mk.injEq] at h
    exact ⟨[], .nil, h.1.symm⟩
  | case3 c cs ih =>
    obtain ⟨⟨inner, _⟩, hinner, he⟩ := Option.map_eq_some_iff.1 h
    cases he
    obtain ⟨body, hbody, rfl⟩ := ih hinner
    exact ⟨'\\' :: c :: body, .pair hbody, rfl⟩
  | case4 c cs hquote hslash ih =>
    obtain ⟨⟨inner, _⟩, hinner, he⟩ := Option.map_eq_some_iff.1 h
    cases he
    obtain ⟨body, hbody, rfl⟩ := ih hinner
    refine ⟨c :: body, .plain hquote (fun hc => ?_) hbody, rfl⟩
    -- A backslash that takes no character is the last one, and nothing is closed after it.
    cases cs with
    | nil => simp [closing?] at hinner
    | cons d ds => exact hslash d ds hc rfl

theorem lexeme_string {body : List Char} (h : StringBody body) (rest : List Char) :
    lexeme '"' (body ++ '"' :: rest) = ⟨.string, '"' :: (body ++ ['"']), rest⟩ := by
  unfold lexeme
  rw [if_neg (by decide), if_neg (by decide), if_pos rfl, closing?_of_body h]

theorem lexeme_unclosed {rest : List Char}
    (h : ∀ body tail, StringBody body → rest ≠ body ++ '"' :: tail) :
    lexeme '"' rest = ⟨.illegal, ['"'], rest⟩ := by
  have hnone : closing? rest = none := by
    rw [Option.eq_none_iff_forall_ne_some]
    rintro ⟨closed, tail⟩ hsome
    obtain ⟨body, hbody, rfl⟩ := body_of_closing? hsome
    have happ := closing?_append hsome
    rw [List.append_assoc] at happ
    exact h body tail hbody happ.symm
  unfold lexeme
  rw [if_neg (by decide), if_neg (by decide), if_pos rfl, hnone]

theorem sign_of_single? {c : Char} {k : Token.Kind} (h : single? c = some k) :
    k.sign.toList = [c] := by
  unfold single? at h
  split at h <;> cases h <;> rfl

theorem lexeme_half {k : Token.Kind} {rest : List Char} (hk : k ∈ [Token.Kind.assign, .bang])
    (hrest : rest.head? ≠ some '=') :
    ∃ c, k.sign.toList = [c] ∧ isLayout c = false ∧ lexeme c rest = ⟨k, [c], rest⟩ := by
  simp only [List.mem_cons, List.not_mem_nil, or_false] at hk
  cases rest with
  | nil => obtain rfl | rfl := hk <;> exact ⟨_, rfl, rfl, rfl⟩
  | cons d ds =>
    have hd : d ≠ '=' := fun h => hrest (congrArg some h)
    obtain rfl | rfl := hk
    · refine ⟨'=', rfl, rfl, ?_⟩
      simp [lexeme, hd, single?, isWordStart]
    · refine ⟨'!', rfl, rfl, ?_⟩
      simp [lexeme, hd, single?, isWordStart]

theorem lexeme_other {c : Char} {rest : List Char} (hclass : ¬(c.isAlphanum ∨ c = '_' ∨ c = '"'))
    (hsign : ∀ k : Token.Kind, k.sign.toList ≠ [c]) :
    lexeme c rest = ⟨.illegal, [c], rest⟩ := by
  simp only [Char.isAlphanum, Bool.or_eq_true, not_or] at hclass
  obtain ⟨⟨halpha, hdigit⟩, hscore, hquote⟩ := hclass
  have hstart : ¬isWordStart c = true := fun h => (isWordStart_iff.1 h).elim halpha hscore
  have hsingle : single? c = none :=
    Option.eq_none_iff_forall_ne_some.2 fun k hk => hsign k (sign_of_single? hk)
  have hhalf (k : Token.Kind) (d : Char) (hd : k.sign.toList = [d]) : c ≠ d := by
    rintro rfl
    exact hsign k hd
  unfold lexeme
  rw [if_neg hstart, if_neg hdigit, if_neg hquote]
  split
  · exact absurd rfl (hhalf .assign '=' rfl)
  · exact absurd rfl (hhalf .bang '!' rfl)
  · rw [hsingle, Option.getD_none]

/-- A reserved word is a word, and of its own kind. -/
theorem word_of_isKeyword {k : Token.Kind} (h : k.isKeyword = true) :
    ∃ c cs, k.sign.toList = c :: cs ∧ isWordStart c = true ∧ (∀ d ∈ cs, isWordRest d = true) ∧
      wordKind (c :: cs) = k := by
  cases k with
  | fnWord | letWord | returnWord | ifWord | elseWord | trueWord | falseWord =>
    exact ⟨_, _, rfl, by decide, List.all_eq_true.1 (by decide), by decide⟩
  | _ => cases h

end Lexer

open Lexer in
/-- The lexer cuts off the word that leads. -/
theorem Word.Leads.lexeme_eq {w : Word} {rest : List Char} (h : w.Leads rest) :
    ∃ c cs, w.text ++ rest = c :: cs ∧ isLayout c = false ∧
      lexeme c cs = ⟨w.kind, w.text, rest⟩ := by
  cases h with
  | @reserved k rest hk hrest =>
    obtain ⟨c, cs, htext, hstart, hcs, hkind⟩ := word_of_isKeyword hk
    refine ⟨c, cs ++ rest, by rw [sign, htext, List.cons_append], ?_, ?_⟩
    · exact isLayout_eq_false (by decide) hstart
    · rw [lexeme_word hstart hcs hrest, hkind, sign, htext]
  | @name x rest hx hrest =>
    obtain ⟨⟨c, cs, htext, hstart, hcs⟩, hreserved⟩ := hx
    have hkind : wordKind (c :: cs) = .ident := by
      rwa [wordKind_eq_ident_iff, ← htext, String.ofList_toList]
    rw [← isWordStart_iff] at hstart
    refine ⟨c, cs ++ rest, by rw [Word.name, htext, List.cons_append], ?_, ?_⟩
    · exact isLayout_eq_false (by decide) hstart
    · rw [lexeme_word hstart (fun d hd => isWordRest_iff.2 (hcs d hd)) hrest, hkind, Word.name,
        htext]
  | @numeral ds rest hne hds hrest =>
    obtain ⟨c, cs, rfl⟩ := List.exists_cons_of_ne_nil hne
    refine ⟨c, cs ++ rest, rfl, ?_, ?_⟩
    · exact isLayout_eq_false (by decide) (hds c List.mem_cons_self)
    · exact lexeme_digits hds fun d hd => Bool.eq_false_iff.2 (hrest d hd)
  | @double k rest hk =>
    simp only [List.mem_cons, List.not_mem_nil, or_false] at hk
    obtain rfl | rfl := hk <;> exact ⟨_, _, rfl, rfl, rfl⟩
  | @closed k rest hk =>
    cases k with
    | lparen | rparen | lbrace | rbrace | comma | semicolon | plus | minus | asterisk | slash | lt
    | gt => exact ⟨_, _, rfl, rfl, rfl⟩
    | _ => exact absurd hk (by decide)
  | @half k rest hk hrest =>
    obtain ⟨c, htext, hlayout, hlexeme⟩ := lexeme_half hk hrest
    exact ⟨c, rest, by rw [sign, htext, List.singleton_append], hlayout, by
      rw [hlexeme, sign, htext]⟩
  | @string body rest hbody =>
    refine ⟨'"', body ++ '"' :: rest, by simp, by decide, lexeme_string hbody rest⟩
  | unclosed hrest => exact ⟨'"', _, rfl, by decide, lexeme_unclosed hrest⟩
  | other hlayout hclass hsign => exact ⟨_, _, rfl, hlayout, lexeme_other hclass hsign⟩

namespace Lexer

open Word

theorem leads_word {c : Char} (hstart : isWordStart c = true) (cs : List Char) :
    Leads ⟨wordKind (c :: cs.takeWhile isWordRest), c :: cs.takeWhile isWordRest⟩
      (cs.dropWhile isWordRest) := by
  have hends : Ends (cs.dropWhile isWordRest) := ends_iff.2 (stop_of_dropWhile isWordRest cs)
  cases hk : Token.Kind.keyword? (String.ofList (c :: cs.takeWhile isWordRest)) with
  | some k =>
    have hlead := Leads.reserved (Token.Kind.isKeyword_of_keyword? hk) hends
    rw [sign, Token.Kind.sign_of_keyword? hk, String.toList_ofList] at hlead
    rwa [wordKind, hk, Option.getD_some]
  | none =>
    have hname : IsName (String.ofList (c :: cs.takeWhile isWordRest)) := by
      refine ⟨⟨c, cs.takeWhile isWordRest, String.toList_ofList, isWordStart_iff.1 hstart,
        fun d hd => ?_⟩, Token.Kind.keyword?_eq_none_iff.1 hk⟩
      exact isWordRest_iff.1 (List.all_eq_true.1 List.all_takeWhile d hd)
    have hlead := Leads.name hname hends
    rw [Word.name, String.toList_ofList] at hlead
    rwa [wordKind, hk, Option.getD_none]

theorem leads_digits {c : Char} (hdigit : c.isDigit = true) (cs : List Char) :
    Leads ⟨.int, c :: cs.takeWhile Char.isDigit⟩ (cs.dropWhile Char.isDigit) := by
  refine .numeral nofun ?_ fun d hd => ?_
  · rw [List.forall_mem_cons]
    exact ⟨hdigit, List.all_eq_true.1 List.all_takeWhile⟩
  · simpa using stop_of_dropWhile Char.isDigit cs d hd

theorem unclosed_of_closing? {cs : List Char} (h : closing? cs = none) :
    ∀ body tail, StringBody body → cs ≠ body ++ '"' :: tail := by
  rintro body tail hbody rfl
  rw [closing?_of_body hbody] at h
  cases h

theorem leads_single {c : Char} {k : Token.Kind} (h : single? c = some k) {rest : List Char}
    (hhalf : c = '=' ∨ c = '!' → rest.head? ≠ some '=') : Leads ⟨k, [c]⟩ rest := by
  have htext := sign_of_single? h
  have hlead : Leads (sign k) rest := by
    unfold single? at h
    split at h <;> cases h
    case h_13 => exact .half (by decide) (hhalf (.inl rfl))
    case h_14 => exact .half (by decide) (hhalf (.inr rfl))
    all_goals exact .closed (by decide)
  rwa [sign, htext] at hlead

theorem single?_of_sign {c : Char} {k : Token.Kind} (h : k.sign.toList = [c]) :
    single? c = some k := by
  cases k <;> simp [Token.Kind.sign] at h <;> subst h <;> rfl

/-- What the lexer cuts off leads. -/
theorem leads_lexeme {c : Char} (hlayout : isLayout c = false) (cs : List Char) :
    Leads ⟨(lexeme c cs).kind, (lexeme c cs).text⟩ (lexeme c cs).rest := by
  unfold lexeme
  split
  · next hstart => exact leads_word hstart cs
  next hstart =>
  split
  · next hdigit => exact leads_digits hdigit cs
  next hdigit =>
  split
  · next hquote =>
    subst hquote
    split
    · next body rest hclosing =>
      obtain ⟨inner, hinner, rfl⟩ := body_of_closing? hclosing
      exact .string hinner
    · next hclosing => exact .unclosed (unclosed_of_closing? hclosing)
  next hquote =>
  split
  · exact .double (k := .eq) (by decide)
  · exact .double (k := .notEq) (by decide)
  · next heq hnot =>
    cases hk : single? c with
    | some k =>
      refine leads_single hk ?_
      rintro hc hhead
      obtain ⟨rest, rfl⟩ : ∃ rest, cs = '=' :: rest := by
        cases cs with
        | nil => cases hhead
        | cons d ds => exact ⟨ds, by simpa using hhead⟩
      exact hc.elim (fun hc => heq rest hc rfl) (fun hc => hnot rest hc rfl)
    | none =>
      refine .other hlayout ?_ fun k hsign => ?_
      · rw [isWordStart_iff, not_or] at hstart
        simp only [Char.isAlphanum, Bool.or_eq_true, not_or]
        exact ⟨⟨hstart.1, hdigit⟩, hstart.2, hquote⟩
      · rw [single?_of_sign hsign] at hk
        cases hk

end Lexer

end Monkey

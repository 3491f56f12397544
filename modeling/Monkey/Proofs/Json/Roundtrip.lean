import Mathlib.Data.List.DropRight
import Monkey.Json.Printer
import Monkey.Json.Reader
import Monkey.Proofs.Token.LexicalGrammar

/-! # Written JSON is read back

A value written over several lines is read back from its text, whatever blanks stand around
it, unless it has a number with a fraction, or an object that has a key twice. A string is
read back character by character: every escape that is written is one that is read, and
what has no escape stands for itself.
-/

namespace Monkey.Json

mutual

/-- Whether a value has whole numbers only, and no key twice in an object. -/
def Plain : Json → Prop
  | null | bool _ | int _ | str _ => True
  | real _ => False
  | arr items => AllPlain items
  | obj members => (members.map Prod.fst).Nodup ∧ MembersPlain members

/-- Whether each of several values is plain. -/
def AllPlain : List Json → Prop
  | [] => True
  | v :: vs => v.Plain ∧ AllPlain vs

/-- Whether the value of each member is plain. -/
def MembersPlain : List (String × Json) → Prop
  | [] => True
  | (_, v) :: ms => v.Plain ∧ MembersPlain ms

end

namespace Reader

variable {n k : Nat} {c : Char} {cs ws rest : List Char}

/-! ## Blanks -/

/-- Whether a character is a blank to the reader. -/
def isBlank (c : Char) : Bool :=
  c == ' ' || c == '\t' || c == '\n' || c == '\r'

theorem skipBlanks_append (h : ∀ c ∈ ws, isBlank c = true) (cs : List Char) :
    skipBlanks (ws ++ cs) = skipBlanks cs :=
  List.dropWhile_append_of_pos h

theorem skipBlanks_cons (h : isBlank c = false) (cs : List Char) :
    skipBlanks (c :: cs) = c :: cs :=
  List.dropWhile_cons_of_neg (Bool.not_eq_true _ ▸ h)

theorem skipBlanks_skipBlanks (cs : List Char) : skipBlanks (skipBlanks cs) = skipBlanks cs :=
  List.dropWhile_idempotent _ cs

theorem value_skipBlanks (n : Nat) (cs : List Char) : value n (skipBlanks cs) = value n cs := by
  cases n with
  | zero => rfl
  | succ n => simp only [value, skipBlanks_skipBlanks]

theorem items_skipBlanks (n : Nat) (cs : List Char) : items n (skipBlanks cs) = items n cs := by
  cases n with
  | zero => rfl
  | succ n => simp only [items, value_skipBlanks]

theorem members_skipBlanks (n : Nat) (cs : List Char) :
    members n (skipBlanks cs) = members n cs := by
  cases n with
  | zero => rfl
  | succ n => simp only [members, skipBlanks_skipBlanks]

theorem value_append (h : ∀ c ∈ ws, isBlank c = true) (n : Nat) (cs : List Char) :
    value n (ws ++ cs) = value n cs := by
  rw [← value_skipBlanks, skipBlanks_append h, value_skipBlanks]

theorem items_append (h : ∀ c ∈ ws, isBlank c = true) (n : Nat) (cs : List Char) :
    items n (ws ++ cs) = items n cs := by
  rw [← items_skipBlanks, skipBlanks_append h, items_skipBlanks]

theorem members_append (h : ∀ c ∈ ws, isBlank c = true) (n : Nat) (cs : List Char) :
    members n (ws ++ cs) = members n cs := by
  rw [← members_skipBlanks, skipBlanks_append h, members_skipBlanks]

theorem value_space (n : Nat) (cs : List Char) : value n (' ' :: cs) = value n cs :=
  value_append (List.forall_mem_singleton.2 rfl) n cs

theorem items_newline (n : Nat) (cs : List Char) : items n ('\n' :: cs) = items n cs :=
  items_append (List.forall_mem_singleton.2 rfl) n cs

theorem members_newline (n : Nat) (cs : List Char) : members n ('\n' :: cs) = members n cs :=
  members_append (List.forall_mem_singleton.2 rfl) n cs

theorem isBlank_replicate : ∀ c ∈ List.replicate k ' ', isBlank c = true := by
  intro c hc
  rw [List.eq_of_mem_replicate hc]
  rfl

/-! ## Strings -/

theorem hexDigit?_digitChar (h : k < 16) : hexDigit? k.digitChar = some k := by
  have hall : ∀ i : Fin 16, hexDigit? i.val.digitChar = some i.val := by decide
  exact hall ⟨k, h⟩

theorem codeUnit?_control (h : c.toNat < 0x20) :
    codeUnit? ['0', '0', (c.toNat / 16).digitChar, (c.toNat % 16).digitChar] = some c.toNat := by
  have hzero : hexDigit? '0' = some 0 := rfl
  have hhigh := hexDigit?_digitChar (k := c.toNat / 16) (by omega)
  have hlow := hexDigit?_digitChar (k := c.toNat % 16) (by omega)
  simp only [codeUnit?, List.foldlM_cons, List.foldlM_nil, hzero, hhigh, hlow, Option.map_some,
    Option.bind_eq_bind, Option.bind_some, Option.pure_def, Option.some.injEq]
  omega

theorem join_unit (h : n < 0xd800) (ps : List Piece) :
    join (.unit n :: ps) = (join ps).map (Char.ofNat n :: ·) := by
  have hlow : ¬0xd800 ≤ n := Nat.not_le.2 h
  cases ps with
  | nil => simp [join, hlow]
  | cons p ps => cases p <;> simp [join, hlow]

/-- The written form of a character is one piece to the reader, and stands for the character. -/
theorem exists_piece (c : Char) :
    ∃ p, (∀ cs, pieces (escape c ++ cs) = (pieces cs).map fun (ps, rest) => (p :: ps, rest)) ∧
      ∀ ps, join (p :: ps) = (join ps).map (c :: ·) := by
  have hletter {l : Char} (hl : letter? l = some c) (hu : l ≠ 'u') (cs : List Char) :
      pieces ('\\' :: l :: cs) = (pieces cs).map fun (ps, rest) => (.char c :: ps, rest) := by
    rw [pieces, hl]
    · cases pieces cs <;> rfl
    · exact fun _ _ _ _ _ h _ => hu h
  unfold escape
  split
  case h_8 hquote hslash _ _ _ _ _ =>
    split
    · next hcontrol =>
      refine ⟨.unit c.toNat, fun cs => ?_, fun ps => ?_⟩
      · simp only [controlEscape, List.cons_append, List.nil_append]
        rw [pieces, codeUnit?_control hcontrol]
        cases pieces cs <;> rfl
      · rw [join_unit (by omega), Char.ofNat_toNat]
    · next hcontrol =>
      refine ⟨.char c, fun cs => ?_, fun ps => rfl⟩
      rw [List.singleton_append, pieces, if_neg hcontrol]
      · exact hquote
      · exact fun _ _ _ _ _ h _ => hslash h
      · exact fun _ _ h _ => hslash h
  all_goals exact ⟨.char _, fun cs => hletter rfl (by decide) cs, fun ps => rfl⟩

theorem exists_pieces (cs rest : List Char) :
    ∃ ps, pieces (cs.flatMap escape ++ '"' :: rest) = some (ps, rest) ∧ join ps = some cs := by
  induction cs with
  | nil => exact ⟨[], by simp [pieces], rfl⟩
  | cons c cs ih =>
    obtain ⟨ps, hps, hjoin⟩ := ih
    obtain ⟨p, hp, hc⟩ := exists_piece c
    refine ⟨p :: ps, ?_, ?_⟩
    · rw [List.flatMap_cons, List.append_assoc, hp, hps, Option.map_some]
    · rw [hc, hjoin, Option.map_some]

theorem string_escapes (s : String) (rest : List Char) :
    string (s.toList.flatMap escape ++ '"' :: rest) = some (s, rest) := by
  obtain ⟨ps, hps, hjoin⟩ := exists_pieces s.toList rest
  simp [string, hps, hjoin]

/-! ## Numbers -/

theorem head?_toDigits (hn : 0 < n) : (Nat.toDigits 10 n).head? ≠ some '0' := by
  induction n using Nat.strongRecOn with
  | ind n ih =>
    rw [Nat.toDigits_eq_if (by decide)]
    split
    · next hlt =>
      have hall : ∀ i : Fin 10, 0 < i.val → i.val.digitChar ≠ '0' := by decide
      simpa using hall ⟨n, hlt⟩ hn
    · have hhead := ih (n / 10) (by omega) (by omega)
      rwa [List.head?_append_of_ne_nil _ Nat.toDigits_ne_nil]

theorem isWhole_toDigits (n : Nat) : isWhole (Nat.toDigits 10 n) = true := by
  unfold isWhole
  split
  · next hnil => exact absurd hnil Nat.toDigits_ne_nil
  · rfl
  · next hzero hcons =>
    obtain rfl | hn := n.eq_zero_or_pos
    · exact absurd hcons (by simpa using hzero)
    · exact absurd (congrArg List.head? hcons) (head?_toDigits hn)
  · exact List.all_eq_true.2 fun c hc => Numeral.isDigit_of_mem_toDigits hc

/-- The written form of a whole number is the number to the reader. -/
theorem number?_ofInt (i : Int) : number? (Numeral.ofInt i).toList = some (.int i) := by
  cases i with
  | ofNat n =>
    have hminus : '-' ∉ Nat.toDigits 10 n := fun hmem =>
      absurd (Numeral.isDigit_of_mem_toDigits hmem) (by decide)
    rw [Numeral.ofInt, Numeral.ofNat, String.toList_ofList, number?, if_pos (isWhole_toDigits n),
      Numeral.readDigits?_toDigits, Option.map_some]
    · intro h
      exact hminus (h ▸ List.mem_cons_self)
    · intro cs h
      exact hminus (h ▸ List.mem_cons_self)
  | negSucc n =>
    have hzero : Nat.toDigits 10 (n + 1) ≠ ['0'] := fun h =>
      head?_toDigits n.succ_pos (congrArg List.head? h)
    rw [Numeral.toList_ofInt_negSucc, number?, if_pos (isWhole_toDigits _),
      Numeral.readDigits?_toDigits, Option.map_some]
    · rfl
    · exact hzero

theorem isNumeral_of_mem_ofInt {i : Int} (hc : c ∈ (Numeral.ofInt i).toList) :
    isNumeral c = true := by
  have hdigit {n : Nat} (h : c ∈ Nat.toDigits 10 n) : isNumeral c = true := by
    simp [isNumeral, Numeral.isDigit_of_mem_toDigits h]
  cases i with
  | ofNat n => exact hdigit (by simpa [Numeral.ofInt, Numeral.ofNat] using hc)
  | negSucc n =>
    rw [Numeral.toList_ofInt_negSucc] at hc
    rcases List.mem_cons.1 hc with rfl | h
    · rfl
    · exact hdigit h

theorem ofInt_ne_nil (i : Int) : (Numeral.ofInt i).toList ≠ [] := by
  cases i <;> simp [Numeral.ofInt, Numeral.ofNat, Nat.toDigits_ne_nil]

theorem isBlank_of_isNumeral (h : isNumeral c = true) : isBlank c = false := by
  by_contra hblank
  simp only [isBlank, Bool.not_eq_false, Bool.or_eq_true, beq_iff_eq] at hblank
  obtain ((rfl | rfl) | rfl) | rfl := hblank <;> cases h

theorem value_numeral (hcs : cs ≠ []) (hall : ∀ c ∈ cs, isNumeral c = true)
    (hrest : ∀ c ∈ rest.head?, isNumeral c = false) (n : Nat) :
    value (n + 1) (cs ++ rest) = (number? cs).map fun v => (v, rest) := by
  obtain ⟨c, cs, rfl⟩ := List.exists_cons_of_ne_nil hcs
  have hc := hall c List.mem_cons_self
  have hskip : skipBlanks (c :: cs ++ rest) = c :: cs ++ rest :=
    skipBlanks_cons (isBlank_of_isNumeral hc) _
  simp only [value, hskip]
  split
  case h_7 =>
    rw [Lexer.takeWhile_append_of_stop hall hrest, Lexer.dropWhile_append_of_stop hall hrest]
  -- The other forms begin with a character that is in no number.
  all_goals
    next h =>
    obtain ⟨rfl, -⟩ := List.cons_eq_cons.1 h
    cases hc

theorem value_ofInt (i : Int) (hrest : ∀ c ∈ rest.head?, isNumeral c = false) (n : Nat) :
    value (n + 1) ((Numeral.ofInt i).toList ++ rest) = some (.int i, rest) := by
  rw [value_numeral (ofInt_ne_nil i) (fun _ => isNumeral_of_mem_ofInt) hrest, number?_ofInt,
    Option.map_some]

/-! ## Items and members -/

variable {v : Json} {vs : List Json} {key : String} {ms : List (String × Json)}
  {after more : List Char}

theorem value_bracket (hcs : skipBlanks cs = ']' :: rest) (n : Nat) : value n cs = none := by
  cases n with
  | zero => rfl
  | succ n =>
    rw [← value_skipBlanks, hcs]
    rfl

theorem items_comma (hv : value n cs = some (v, after)) (hafter : skipBlanks after = ',' :: more) :
    items (n + 1) cs = (items n more).map fun (vs, rest) => (v :: vs, rest) := by
  simp only [items, hv, Option.bind_eq_bind, Option.bind_some, hafter]
  cases items n more <;> rfl

theorem items_last (hv : value n cs = some (v, after)) (hafter : skipBlanks after = ']' :: rest) :
    items (n + 1) cs = some ([v], rest) := by
  simp only [items, hv, Option.bind_eq_bind, Option.bind_some, hafter]
  rfl

theorem value_arr (h : items n cs = some (vs, rest)) :
    value (n + 1) ('[' :: cs) = some (.arr vs, rest) := by
  have hskip : skipBlanks ('[' :: cs) = '[' :: cs := skipBlanks_cons rfl cs
  simp only [value, hskip]
  split
  · next hbracket =>
    cases n with
    | zero => simp [items] at h
    | succ n => simp [items, value_bracket hbracket] at h
  · rw [items_skipBlanks, h, Option.map_some]

theorem members_comma
    (hcs : skipBlanks cs = '"' :: (key.toList.flatMap escape ++ '"' :: ':' :: after))
    (hv : value n after = some (v, rest)) (hrest : skipBlanks rest = ',' :: more) :
    members (n + 1) cs = (members n more).map fun (ms, rest) => (putFirst key v ms, rest) := by
  have hcolon : skipBlanks (':' :: after) = ':' :: after := skipBlanks_cons rfl after
  simp only [members, hcs, string_escapes, hcolon, hv, hrest, Option.bind_eq_bind,
    Option.bind_some]
  cases members n more <;> rfl

theorem members_last
    (hcs : skipBlanks cs = '"' :: (key.toList.flatMap escape ++ '"' :: ':' :: after))
    (hv : value n after = some (v, rest)) (hrest : skipBlanks rest = '\x7d' :: more) :
    members (n + 1) cs = some ([(key, v)], more) := by
  have hcolon : skipBlanks (':' :: after) = ':' :: after := skipBlanks_cons rfl after
  simp only [members, hcs, string_escapes, hcolon, hv, hrest, Option.bind_eq_bind,
    Option.bind_some]
  rfl

theorem value_obj (h : members n cs = some (ms, rest)) :
    value (n + 1) ('\x7b' :: cs) = some (.obj ms, rest) := by
  have hskip : skipBlanks ('\x7b' :: cs) = '\x7b' :: cs := skipBlanks_cons rfl cs
  simp only [value, hskip]
  split
  · next hbrace =>
    cases n with
    | zero => simp [members] at h
    | succ n => simp [members, hbrace] at h
  · rw [members_skipBlanks, h, Option.map_some]

theorem putFirst_of_notMem (h : key ∉ ms.map Prod.fst) : putFirst key v ms = (key, v) :: ms := by
  refine if_neg fun hany => ?_
  obtain ⟨m, hm, hkey⟩ := List.any_eq_true.1 hany
  exact h (List.mem_map.2 ⟨m, hm, beq_iff_eq.1 hkey⟩)

end Reader

/-! ## Lines -/

section

variable {depth : Nat} {l m : String} {ls : List String}

/-- Lines at a depth, with a comma behind each but the last. -/
def listed (depth : Nat) (ls : List String) : List Char :=
  (",\n".intercalate (ls.map (indent depth ++ ·))).toList

theorem listed_singleton :
    listed depth [l] = List.replicate (2 * depth) ' ' ++ l.toList := by
  simp [listed, indent]

theorem listed_cons_cons : listed depth (l :: m :: ls) =
    List.replicate (2 * depth) ' ' ++ (l.toList ++ ',' :: '\n' :: listed depth (m :: ls)) := by
  simp [listed, indent]

theorem toList_enclose {first last : String} (h : ls ≠ []) :
    (enclose depth first last ls).toList = first.toList ++ '\n' :: (listed (depth + 1) ls ++
      '\n' :: (List.replicate (2 * depth) ' ' ++ last.toList)) := by
  obtain ⟨l, ls, rfl⟩ := List.exists_cons_of_ne_nil h
  simp [enclose, listed, indent]

theorem toList_member (key : String) (v : Json) :
    (quote key ++ ": " ++ v.pretty depth).toList =
      '"' :: (key.toList.flatMap escape ++ '"' :: ':' :: ' ' :: (v.pretty depth).toList) := by
  simp [quote]

theorem toList_pretty_arr {vs : List Json} (h : vs ≠ []) : ((arr vs).pretty depth).toList =
    '[' :: '\n' :: (listed (depth + 1) (prettyItems (depth + 1) vs) ++
      '\n' :: (List.replicate (2 * depth) ' ' ++ [']'])) := by
  obtain ⟨v, vs, rfl⟩ := List.exists_cons_of_ne_nil h
  rw [pretty, toList_enclose (by simp [prettyItems])]
  rfl

theorem toList_pretty_obj {ms : List (String × Json)} (h : ms ≠ []) :
    ((obj ms).pretty depth).toList =
      '\x7b' :: '\n' :: (listed (depth + 1) (prettyMembers (depth + 1) ms) ++
        '\n' :: (List.replicate (2 * depth) ' ' ++ ['\x7d'])) := by
  obtain ⟨m, ms, rfl⟩ := List.exists_cons_of_ne_nil h
  rw [pretty, toList_enclose (by simp [prettyMembers])]
  rfl

end

/-! ## The round trip -/

open Reader

theorem skipBlanks_closing {c : Char} {ws : List Char} (hws : ∀ c ∈ ws, isBlank c = true)
    (hc : isBlank c = false) (rest : List Char) :
    skipBlanks ('\n' :: (ws ++ c :: rest)) = c :: rest := by
  rw [← List.cons_append, skipBlanks_append, skipBlanks_cons hc]
  exact List.forall_mem_cons.2 ⟨rfl, hws⟩

mutual

/--
A written value is read back, and what follows it is left, where no number goes on. Every call spends
one of the budget and passes a character at least, so a budget above the length suffices.
-/
theorem value_pretty (j : Json) (hj : j.Plain) {depth n : Nat} {rest : List Char}
    (hn : (j.pretty depth).toList.length < n) (hrest : ∀ c ∈ rest.head?, isNumeral c = false) :
    value n ((j.pretty depth).toList ++ rest) = some (j, rest) := by
  obtain ⟨n, rfl⟩ := Nat.exists_eq_add_one_of_ne_zero (Nat.ne_zero_of_lt hn)
  cases j with
  | null => simp [pretty, value, skipBlanks]
  | bool b => cases b <;> simp [pretty, value, skipBlanks]
  | int i => exact value_ofInt i hrest n
  | real text => exact hj.elim
  | str s => simp [pretty, quote, value, skipBlanks, string_escapes]
  | arr vs =>
    obtain rfl | hne := eq_or_ne vs []
    · simp [pretty, prettyItems, enclose, value, skipBlanks]
    · rw [toList_pretty_arr hne] at hn ⊢
      simp only [List.length_cons, List.length_append] at hn
      simp only [List.cons_append, List.nil_append, List.append_assoc]
      refine value_arr ?_
      rw [items_newline]
      exact items_pretty vs hj hne isBlank_replicate (by omega)
  | obj ms =>
    obtain rfl | hne := eq_or_ne ms []
    · simp [pretty, prettyMembers, enclose, value, skipBlanks]
    · rw [toList_pretty_obj hne] at hn ⊢
      simp only [List.length_cons, List.length_append] at hn
      simp only [List.cons_append, List.nil_append, List.append_assoc]
      refine value_obj ?_
      rw [members_newline]
      exact members_pretty ms hj.2 hj.1 hne isBlank_replicate (by omega)

theorem items_pretty (vs : List Json) (hvs : AllPlain vs) (hne : vs ≠ []) {depth n : Nat}
    {ws rest : List Char} (hws : ∀ c ∈ ws, isBlank c = true)
    (hn : (listed depth (prettyItems depth vs)).length + 1 < n) :
    items n (listed depth (prettyItems depth vs) ++ '\n' :: (ws ++ ']' :: rest)) =
      some (vs, rest) := by
  obtain ⟨n, rfl⟩ := Nat.exists_eq_add_one_of_ne_zero (Nat.ne_zero_of_lt hn)
  match vs, hvs with
  | [], _ => exact absurd rfl hne
  | [v], hv =>
    simp only [prettyItems, listed_singleton, List.length_append, List.append_assoc] at hn ⊢
    rw [items_append isBlank_replicate]
    exact items_last (value_pretty v hv.1 (by omega) (by simp [isNumeral]))
      (skipBlanks_closing hws rfl rest)
  | v :: w :: vs, hvs =>
    simp only [prettyItems, listed_cons_cons, List.length_append, List.append_assoc,
      List.cons_append, List.length_cons] at hn ⊢
    -- The comma and the line feed that follow the first item leave room in the budget.
    rw [items_append isBlank_replicate,
      items_comma (value_pretty v hvs.1 (by omega) (by simp [isNumeral])) (skipBlanks_cons rfl _),
      items_newline, ← prettyItems,
      items_pretty (w :: vs) hvs.2 (List.cons_ne_nil w vs) hws (by rw [prettyItems]; omega),
      Option.map_some]

theorem members_pretty (ms : List (String × Json)) (hms : MembersPlain ms)
    (hkeys : (ms.map Prod.fst).Nodup) (hne : ms ≠ []) {depth n : Nat} {ws rest : List Char}
    (hws : ∀ c ∈ ws, isBlank c = true)
    (hn : (listed depth (prettyMembers depth ms)).length + 1 < n) :
    members n (listed depth (prettyMembers depth ms) ++ '\n' :: (ws ++ '\x7d' :: rest)) =
      some (ms, rest) := by
  obtain ⟨n, rfl⟩ := Nat.exists_eq_add_one_of_ne_zero (Nat.ne_zero_of_lt hn)
  match ms, hms, hkeys with
  | [], _, _ => exact absurd rfl hne
  | [(key, v)], hv, _ =>
    simp only [prettyMembers, listed_singleton, toList_member, List.length_append,
      List.length_cons, List.append_assoc, List.cons_append] at hn ⊢
    rw [members_append isBlank_replicate]
    exact members_last (skipBlanks_cons rfl _)
      ((value_space n _).trans (value_pretty v hv.1 (by omega) (by simp [isNumeral])))
      (skipBlanks_closing hws rfl rest)
  | (key, v) :: m :: ms, hms, hkeys =>
    obtain ⟨hkey, hkeys⟩ := List.nodup_cons.1 hkeys
    simp only [prettyMembers, listed_cons_cons, toList_member, List.length_append,
      List.append_assoc, List.cons_append, List.length_cons] at hn ⊢
    rw [members_append isBlank_replicate,
      members_comma (skipBlanks_cons rfl _)
        ((value_space n _).trans (value_pretty v hms.1 (by omega) (by simp [isNumeral])))
        (skipBlanks_cons rfl _),
      members_newline, ← prettyMembers,
      members_pretty (m :: ms) hms.2 hkeys (List.cons_ne_nil m ms) hws
        (by rw [prettyMembers]; omega),
      Option.map_some]
    exact congrArg (fun ms => some (ms, rest)) (putFirst_of_notMem hkey)

end

/-- A written value is the value of its text, blanks behind it apart. -/
theorem ofText?_pretty {j : Json} (hj : j.Plain) (depth : Nat) {blanks : String}
    (hblanks : ∀ c ∈ blanks.toList, isBlank c = true) :
    ofText? (j.pretty depth ++ blanks) = some j := by
  have hrest : ∀ c ∈ blanks.toList.head?, isNumeral c = false := fun c hc => by
    by_contra hnumeral
    have hblank := hblanks c (List.mem_of_mem_head? hc)
    rw [isBlank_of_isNumeral (Bool.not_eq_false _ ▸ hnumeral)] at hblank
    cases hblank
  have hbudget : (j.pretty depth).toList.length < 2 * (j.pretty depth ++ blanks).length + 1 := by
    rw [String.length_append, String.length_toList]
    omega
  have hvalue := value_pretty j hj hbudget hrest
  have hskip : skipBlanks blanks.toList = [] := by
    simpa [skipBlanks] using skipBlanks_append hblanks []
  rw [ofText?, String.toList_append, hvalue]
  simp [hskip]

end Monkey.Json

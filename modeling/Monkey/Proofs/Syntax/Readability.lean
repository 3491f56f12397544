import Monkey.Proofs.Syntax.Display

/-! # Rendered programs are told apart

No two programs that texts can spell have the same rendering, also where the rendering
does not parse, or parses to another program. The pieces of a rendering can be read in
one way only: an expression goes on as long as arguments or an alternative follow it,
and a space before anything else ends it. Calls are the only expressions that begin
with one of their parts, so an expression is read together with the lists of arguments
behind it.
-/

namespace Monkey

open Word Piece

variable {e d : Expr} {es : List Expr} {argss : List (List Expr)} {s : Stmt} {ss ts : List Stmt}
  {ps qs : List Piece} {k l : Token.Kind}

/-! ## Words -/

theorem Integer.toText_inj {m n : Integer} (h : m.toText = n.toText) : m = n := by
  have hm := Numeral.read?_ofInt m.toInt
  have hn := Numeral.read?_ofInt n.toInt
  rw [toText, toText] at h
  rw [h, hn, Option.some.injEq] at hm
  exact (Int64.toInt_inj.1 hm).symm

theorem UnaryOp.token_inj {op op' : UnaryOp} (h : op.token = op'.token) : op = op' := by
  cases op <;> cases op' <;> first | rfl | cases h

theorem BinaryOp.token_inj {op op' : BinaryOp} (h : op.token = op'.token) : op = op' := by
  cases op <;> cases op' <;> first | rfl | cases h

/-! ## Where an expression ends -/

namespace Piece

/-- Whether pieces do not begin with the alternative of a conditional. -/
def NoElse (ps : List Piece) : Prop :=
  ∀ qs, ps ≠ space :: fixed .elseWord :: qs

/-- Whether pieces do not go on with the expression before them. -/
structure Stops (ps : List Piece) : Prop where
  noElse : NoElse ps
  noArguments : ∀ qs, ps ≠ fixed .lparen :: qs

/-- Whether pieces end a sequence of statements. -/
def Finishes (ps : List Piece) : Prop :=
  ps = [] ∨ ∃ qs, ps = space :: fixed .rbrace :: qs

theorem fixed_inj : fixed k = fixed l ↔ k = l := by
  constructor
  · intro h
    cases h
    rfl
  · rintro rfl
    rfl

theorem stops_fixed (hk : k ≠ .lparen) (ps : List Piece) : Stops (fixed k :: ps) where
  noElse _ h := by cases h
  noArguments _ h := hk (fixed_inj.1 (List.cons.inj h).1)

theorem stops_space {w : Word} (hw : w.kind ≠ .elseWord) (ps : List Piece) :
    Stops (space :: token w :: ps) where
  noElse _ h := by
    cases h
    exact hw rfl
  noArguments _ h := by cases h

theorem stops_nil : Stops [] := ⟨nofun, nofun⟩

theorem Finishes.stops (h : Finishes ps) : Stops ps := by
  obtain rfl | ⟨qs, rfl⟩ := h
  · exact stops_nil
  · exact stops_space (by decide) qs

/-- The pieces of lists of arguments, each between parentheses. -/
def argumentLists (argss : List (List Expr)) : List Piece :=
  argss.flatMap fun args =>
    fixed .lparen :: (separated (Expr.allPieces args) ++ [fixed .rparen])

theorem Stops.noElse_argumentLists (h : Stops ps) (argss : List (List Expr)) :
    NoElse (argumentLists argss ++ ps) := by
  cases argss with
  | nil => exact h.noElse
  | cons args argss => exact fun _ h => by cases h

/-! ## What is separated by commas -/

theorem separated_cons (ps : List Piece) (pss : List (List Piece)) :
    separated (ps :: pss) = ps ++ pss.flatMap fun qs => fixed .comma :: space :: qs := by
  induction pss generalizing ps with
  | nil => simp [separated]
  | cons qs pss ih => simp [separated, ih]

variable {α : Type} {f : α → List Piece} {xs : List α}

/-- Whether something can be told from its pieces where an expression may end. -/
def Told (f : α → List Piece) (x : α) : Prop :=
  ∀ y ps qs, Stops ps → Stops qs → f x ++ ps = f y ++ qs → x = y ∧ ps = qs

theorem stops_commas (xs : List α) (ps : List Piece) :
    Stops ((xs.flatMap fun x => fixed .comma :: space :: f x) ++ fixed .rparen :: ps) := by
  cases xs <;> exact stops_fixed (by decide) _

theorem commas_inj (h : ∀ x ∈ xs, Told f x) {ys : List α}
    (heq : (xs.flatMap fun x => fixed .comma :: space :: f x) ++ fixed .rparen :: ps =
      (ys.flatMap fun y => fixed .comma :: space :: f y) ++ fixed .rparen :: qs) :
    xs = ys ∧ ps = qs := by
  induction xs generalizing ys with
  | nil =>
    cases ys with
    | nil => exact ⟨rfl, (List.cons.inj heq).2⟩
    | cons y ys => cases heq
  | cons x xs ih =>
    cases ys with
    | nil => cases heq
    | cons y ys =>
      rw [List.forall_mem_cons] at h
      simp only [List.flatMap_cons, List.cons_append, List.append_assoc, List.cons.injEq,
        true_and] at heq
      obtain ⟨rfl, hrest⟩ := h.1 y _ _ (stops_commas xs ps) (stops_commas ys qs) heq
      obtain ⟨rfl, rfl⟩ := ih h.2 hrest
      exact ⟨rfl, rfl⟩

/-- What stands between commas, up to a closing parenthesis, is told by what each of them is. -/
theorem separated_inj (hf : ∀ x, ∃ w rs, f x = token w :: rs ∧ w.kind ≠ .rparen)
    (h : ∀ x ∈ xs, Told f x) {ys : List α}
    (heq : separated (xs.map f) ++ fixed .rparen :: ps =
      separated (ys.map f) ++ fixed .rparen :: qs) : xs = ys ∧ ps = qs := by
  have hnil (y : α) (ys : List α) (rs us : List Piece) :
      fixed .rparen :: rs ≠ separated ((y :: ys).map f) ++ us := by
    obtain ⟨w, vs, hw, hkind⟩ := hf y
    rw [List.map_cons, separated_cons, hw]
    intro h
    cases h
    exact hkind rfl
  cases xs with
  | nil =>
    cases ys with
    | nil => exact ⟨rfl, (List.cons.inj heq).2⟩
    | cons y ys => exact absurd heq (hnil y ys _ _)
  | cons x xs =>
    cases ys with
    | nil => exact absurd heq.symm (hnil x xs _ _)
    | cons y ys =>
      rw [List.forall_mem_cons] at h
      simp only [List.map_cons, separated_cons, List.flatMap_map, List.append_assoc] at heq
      obtain ⟨rfl, hrest⟩ := h.1 y _ _ (stops_commas xs ps) (stops_commas ys qs) heq
      obtain ⟨rfl, rfl⟩ := commas_inj h.2 hrest
      exact ⟨rfl, rfl⟩

end Piece

/-! ## Expressions -/

theorem Expr.allPieces_eq (es : List Expr) : Expr.allPieces es = es.map Expr.pieces := by
  induction es with
  | nil => rfl
  | cons e es ih => rw [Expr.allPieces, ih, List.map_cons]

namespace Expr

/-- Whether an expression is a call. -/
def IsCall : Expr → Prop
  | .call .. => True
  | _ => False

/-- The calls of an expression with lists of arguments, one after the other. -/
def applied (e : Expr) (argss : List (List Expr)) : Expr :=
  argss.foldl .call e

theorem pieces_applied (e : Expr) (argss : List (List Expr)) :
    (e.applied argss).pieces = e.pieces ++ argumentLists argss := by
  induction argss generalizing e with
  | nil => simp [applied, argumentLists]
  | cons args argss ih =>
    have hcall := ih (.call e args)
    rw [pieces, List.append_assoc] at hcall
    exact hcall

theorem exists_applied (e : Expr) :
    ∃ (d : Expr) (argss : List (List Expr)), ¬d.IsCall ∧ e = d.applied argss := by
  match e with
  | .call callee args =>
    obtain ⟨d, argss, hd, hcallee⟩ := callee.exists_applied
    refine ⟨d, argss ++ [args], hd, ?_⟩
    rw [hcallee, applied, applied, List.foldl_append]
    rfl
  | .ident _ | .int _ | .str _ | .bool _ | .unary .. | .binary .. | .cond .. | .fn .. =>
    exact ⟨_, [], id, rfl⟩

/--
Whether an expression, and the arguments behind it, can be told from the pieces. The arguments are
those of the calls that begin with the expression.
-/
def Readable (e : Expr) : Prop :=
  ∀ argss : List (List Expr), (∀ args ∈ argss, ∀ a ∈ args, Told pieces a) →
    ∀ d ps qs, Stops ps → Stops qs → e.pieces ++ (argumentLists argss ++ ps) = d.pieces ++ qs →
      e.applied argss = d ∧ ps = qs

theorem Readable.told (h : e.Readable) : Told pieces e :=
  h [] nofun

theorem Readable.call (h : e.Readable) (hes : ∀ a ∈ es, a.Readable) : (call e es).Readable := by
  intro argss hargss d ps qs hps hqs heq
  refine h (es :: argss) ?_ d ps qs hps hqs ?_
  · rw [List.forall_mem_cons]
    exact ⟨fun a ha => (hes a ha).told, hargss⟩
  · rw [← heq, pieces]
    simp [argumentLists]

theorem leading_ne_rparen (e : Expr) : ∃ w rs, e.pieces = token w :: rs ∧ w.kind ≠ .rparen := by
  obtain ⟨w, rs, hrs, hw, -⟩ := e.exists_pieces
  refine ⟨w, rs, hrs, ?_⟩
  rintro hkind
  rw [hkind] at hw
  exact absurd hw (by decide)

theorem argumentLists_inj (h : ∀ args ∈ argss, ∀ a ∈ args, Told pieces a)
    {bss : List (List Expr)} (hps : Stops ps) (hqs : Stops qs)
    (heq : argumentLists argss ++ ps = argumentLists bss ++ qs) : argss = bss ∧ ps = qs := by
  induction argss generalizing bss with
  | nil =>
    cases bss with
    | nil => exact ⟨rfl, heq⟩
    | cons bs bss => exact absurd heq (hps.noArguments _)
  | cons args argss ih =>
    cases bss with
    | nil => exact absurd heq.symm (hqs.noArguments _)
    | cons bs bss =>
      rw [List.forall_mem_cons] at h
      simp only [argumentLists, List.flatMap_cons, allPieces_eq, List.cons_append,
        List.append_assoc, List.cons.injEq, true_and, List.nil_append] at heq
      obtain ⟨rfl, hrest⟩ := separated_inj leading_ne_rparen h.1 heq
      obtain ⟨rfl, rfl⟩ := ih h.2 (by simpa [argumentLists, allPieces_eq] using hrest)
      exact ⟨rfl, rfl⟩

/-- What is not a call needs to be told only from what is not a call. -/
theorem readable_of_core
    (h : ∀ d ps qs, ¬d.IsCall → NoElse ps → NoElse qs → e.pieces ++ ps = d.pieces ++ qs →
      e = d ∧ ps = qs) : e.Readable := by
  intro argss hargss d ps qs hps hqs heq
  obtain ⟨c, bss, hc, rfl⟩ := d.exists_applied
  rw [pieces_applied, List.append_assoc] at heq
  obtain ⟨rfl, hrest⟩ :=
    h c _ _ hc (hps.noElse_argumentLists argss) (hqs.noElse_argumentLists bss) heq
  obtain ⟨rfl, rfl⟩ := argumentLists_inj hargss hps hqs hrest
  exact ⟨rfl, rfl⟩

/-- The expressions, other than calls, whose first word is of a kind. -/
def Starts : Token.Kind → Expr → Prop
  | .ident, d => ∃ y, d = ident y
  | .int, d => ∃ n, d = int n
  | .string, d => ∃ t, d = str t
  | .trueWord, d => d = bool true
  | .falseWord, d => d = bool false
  | .lparen, d => (∃ op a, d = unary op a) ∨ ∃ op a b, d = binary op a b
  | .ifWord, d => ∃ a b alternative, d = cond a b alternative
  | .fnWord, d => ∃ params b, d = fn params b
  | _, _ => False

theorem starts_of_pieces (hd : ¬d.IsCall) {w : Word} (h : token w :: ps = d.pieces ++ qs) :
    Starts w.kind d := by
  cases d with
  | call => exact absurd trivial hd
  | cond a b alternative => cases alternative <;> cases h <;> exact ⟨_, _, _, rfl⟩
  | bool v => cases v <;> cases h <;> rfl
  | unary => cases h; exact .inl ⟨_, _, rfl⟩
  | binary => cases h; exact .inr ⟨_, _, _, rfl⟩
  | fn => cases h; exact ⟨_, _, rfl⟩
  | _ => cases h; exact ⟨_, rfl⟩

theorem readable_ident (x : String) : (ident x).Readable := by
  refine readable_of_core fun d ps qs hd _ _ heq => ?_
  obtain ⟨y, rfl⟩ : Starts .ident d := starts_of_pieces (w := name x) hd heq
  simp only [pieces, List.singleton_append, List.cons.injEq, token.injEq, name, Word.mk.injEq,
    String.toList_inj, true_and] at heq
  exact ⟨congrArg ident heq.1, heq.2⟩

theorem readable_int (n : Integer) : (int n).Readable := by
  refine readable_of_core fun d ps qs hd _ _ heq => ?_
  obtain ⟨m, rfl⟩ : Starts .int d := starts_of_pieces (w := Word.int n) hd heq
  simp only [pieces, List.singleton_append, List.cons.injEq, token.injEq, Word.int, Word.mk.injEq,
    String.toList_inj, true_and] at heq
  exact ⟨congrArg int (Integer.toText_inj heq.1), heq.2⟩

theorem readable_str (t : String) : (str t).Readable := by
  refine readable_of_core fun d ps qs hd _ _ heq => ?_
  obtain ⟨u, rfl⟩ : Starts .string d := starts_of_pieces (w := quoted t) hd heq
  simp only [pieces, List.singleton_append, List.cons.injEq, token.injEq, quoted, Word.mk.injEq,
    String.toList_inj, true_and] at heq
  exact ⟨congrArg str (Text.quote_inj heq.1), heq.2⟩

theorem readable_bool (v : Bool) : (bool v).Readable := by
  refine readable_of_core fun d ps qs hd _ _ heq => ?_
  cases v with
  | false =>
    obtain rfl : Starts .falseWord d := starts_of_pieces (w := Word.sign .falseWord) hd heq
    exact ⟨rfl, (List.cons.inj heq).2⟩
  | true =>
    obtain rfl : Starts .trueWord d := starts_of_pieces (w := Word.sign .trueWord) hd heq
    exact ⟨rfl, (List.cons.inj heq).2⟩

/-- A word of another kind is none that begins an expression. -/
theorem fixed_ne_pieces (hk : k ∉ leading) (e : Expr) : fixed k :: ps ≠ e.pieces ++ qs := by
  obtain ⟨w, rs, hrs, hw, -⟩ := e.exists_pieces
  rw [hrs]
  intro h
  cases h
  exact hk hw

theorem unary_notMem_leading (op : UnaryOp) : op.token ∉ leading := by
  cases op <;> decide

theorem readable_unary (op : UnaryOp) (he : e.Readable) : (unary op e).Readable := by
  refine readable_of_core fun d ps qs hd _ _ heq => ?_
  obtain ⟨op', a, rfl⟩ | ⟨op', a, b, rfl⟩ : Starts .lparen d :=
    starts_of_pieces (w := Word.sign .lparen) hd heq
  · simp only [pieces, List.cons_append, List.append_assoc, List.cons.injEq, true_and,
      fixed_inj] at heq
    obtain ⟨hop, hrest⟩ := heq
    obtain ⟨rfl, htail⟩ :=
      he.told a _ _ (stops_fixed (by decide) _) (stops_fixed (by decide) _) hrest
    exact ⟨by rw [UnaryOp.token_inj hop], (List.cons.inj htail).2⟩
  · simp only [pieces, List.cons_append, List.append_assoc, List.cons.injEq, true_and] at heq
    exact absurd heq (fixed_ne_pieces (unary_notMem_leading op) a)

theorem readable_binary (op : BinaryOp) (he : e.Readable) (hd : d.Readable) :
    (binary op e d).Readable := by
  refine readable_of_core fun c ps qs hc _ _ heq => ?_
  obtain ⟨op', a, rfl⟩ | ⟨op', a, b, rfl⟩ : Starts .lparen c :=
    starts_of_pieces (w := Word.sign .lparen) hc heq
  · simp only [pieces, List.cons_append, List.append_assoc, List.cons.injEq, true_and] at heq
    exact absurd heq.symm (fixed_ne_pieces (unary_notMem_leading op') e)
  · have hstops (op : BinaryOp) (rs : List Piece) : Stops (space :: fixed op.token :: rs) :=
      stops_space (by cases op <;> decide) rs
    simp only [pieces, List.cons_append, List.append_assoc, List.cons.injEq, true_and] at heq
    obtain ⟨rfl, hright⟩ := he.told a _ _ (hstops op _) (hstops op' _) heq
    simp only [List.cons.injEq, true_and, fixed_inj] at hright
    obtain ⟨hop, hright⟩ := hright
    obtain ⟨rfl, htail⟩ :=
      hd.told b _ _ (stops_fixed (by decide) _) (stops_fixed (by decide) _) hright
    exact ⟨by rw [BinaryOp.token_inj hop], (List.cons.inj htail).2⟩

end Expr

/-! ## Statements and blocks -/

namespace Stmt

/-- Whether statements can be told from their pieces where their sequence ends. -/
def AllTold (ss : List Stmt) : Prop :=
  ∀ ts ps qs, Finishes ps → Finishes qs → allPieces ss ++ ps = allPieces ts ++ qs →
    ss = ts ∧ ps = qs

theorem AllTold.inBraces {ss ts : List Stmt} (h : AllTold ss)
    (heq : inBraces (allPieces ss) ++ ps = inBraces (allPieces ts) ++ qs) : ss = ts ∧ ps = qs := by
  simp only [Piece.inBraces, List.cons_append, List.append_assoc, List.cons.injEq, true_and,
    List.nil_append] at heq
  obtain ⟨rfl, hrest⟩ := h ts _ _ (.inr ⟨_, rfl⟩) (.inr ⟨_, rfl⟩) heq
  simp only [List.cons.injEq, true_and] at hrest
  exact ⟨rfl, hrest⟩

theorem exists_pieces (s : Stmt) :
    ∃ w ps, s.pieces = token w :: ps ∧ w.kind ∈ .letWord :: .returnWord :: Expr.leading := by
  cases s with
  | bind | ret => exact ⟨_, _, rfl, by decide⟩
  | expr e =>
    obtain ⟨w, ps, hps, hw, -⟩ := e.exists_pieces
    exact ⟨w, ps, hps, List.mem_cons_of_mem _ (List.mem_cons_of_mem _ hw)⟩

theorem told_bind (x : String) (he : e.Readable) : Told pieces (.bind x e) := by
  intro t ps qs _ _ heq
  cases t with
  | bind y d =>
    simp only [pieces, List.cons_append, List.append_assoc, List.cons.injEq, true_and,
      token.injEq, name, Word.mk.injEq, String.toList_inj] at heq
    obtain ⟨rfl, hvalue⟩ := heq
    obtain ⟨rfl, hrest⟩ :=
      he.told d _ _ (stops_fixed (by decide) _) (stops_fixed (by decide) _) hvalue
    exact ⟨rfl, (List.cons.inj hrest).2⟩
  | ret => cases heq
  | expr d => exact absurd heq (d.fixed_ne_pieces (by decide))

theorem told_ret (he : e.Readable) : Told pieces (.ret e) := by
  intro t ps qs _ _ heq
  cases t with
  | bind => cases heq
  | ret d =>
    simp only [pieces, List.cons_append, List.append_assoc, List.cons.injEq, true_and] at heq
    obtain ⟨rfl, hrest⟩ :=
      he.told d _ _ (stops_fixed (by decide) _) (stops_fixed (by decide) _) heq
    exact ⟨rfl, (List.cons.inj hrest).2⟩
  | expr d => exact absurd heq (d.fixed_ne_pieces (by decide))

theorem told_expr (he : e.Readable) : Told pieces (.expr e) := by
  intro t ps qs hps hqs heq
  cases t with
  | bind | ret => exact absurd heq.symm (e.fixed_ne_pieces (by decide))
  | expr d =>
    obtain ⟨rfl, hrest⟩ := he.told d ps qs hps hqs heq
    exact ⟨rfl, hrest⟩

theorem stops_allPieces (ss : List Stmt) (h : Finishes ps) : Stops (allPieces ss ++ ps) := by
  cases ss with
  | nil => exact h.stops
  | cons s ss =>
    obtain ⟨w, rs, hrs, hw⟩ := s.exists_pieces
    rw [allPieces, hrs]
    refine stops_space ?_ _
    rintro hkind
    rw [hkind] at hw
    exact absurd hw (by decide)

/-- Where a sequence of statements ends, no statement begins. -/
theorem allPieces_ne_finish (s : Stmt) (h : Finishes qs) :
    allPieces (s :: ss) ++ ps ≠ qs := by
  obtain ⟨w, rs, hrs, hw⟩ := s.exists_pieces
  rw [allPieces, hrs]
  obtain rfl | ⟨us, rfl⟩ := h
  · exact List.cons_ne_nil _ _
  · intro heq
    cases heq
    exact absurd hw (by decide)

theorem AllTold.cons {ss : List Stmt} (hss : AllTold ss) (hs : Told pieces s) :
    AllTold (s :: ss) := by
  intro ts ps qs hps hqs heq
  cases ts with
  | nil => exact absurd heq (allPieces_ne_finish s hqs)
  | cons t ts =>
    simp only [allPieces, List.cons_append, List.append_assoc, List.cons.injEq, true_and] at heq
    obtain ⟨rfl, hrest⟩ := hs t _ _ (stops_allPieces ss hps) (stops_allPieces ts hqs) heq
    obtain ⟨rfl, rfl⟩ := hss ts ps qs hps hqs hrest
    exact ⟨rfl, rfl⟩

theorem allTold_nil : AllTold [] := by
  intro ts ps qs hps _ heq
  cases ts with
  | nil => exact ⟨rfl, heq⟩
  | cons t ts => exact absurd heq.symm (allPieces_ne_finish t hps)

end Stmt

/-! ## Expressions with blocks -/

namespace Expr

open Stmt

/-- The pieces of an alternative, where there is one. -/
def alternativePieces : Option (List Stmt) → List Piece
  | none => []
  | some c => space :: fixed .elseWord :: space :: inBraces (Stmt.allPieces c)

theorem pieces_cond (e : Expr) (b : List Stmt) (alternative : Option (List Stmt)) :
    (cond e b alternative).pieces = fixed .ifWord :: space :: (e.pieces ++
      space :: (inBraces (Stmt.allPieces b) ++ alternativePieces alternative)) := by
  cases alternative <;> simp [pieces, alternativePieces]

theorem alternative_inj {b c : Option (List Stmt)} (hb : ∀ ss ∈ b, AllTold ss) (hps : NoElse ps)
    (hqs : NoElse qs) (heq : alternativePieces b ++ ps = alternativePieces c ++ qs) :
    b = c ∧ ps = qs := by
  cases b with
  | none =>
    cases c with
    | none => exact ⟨rfl, heq⟩
    | some ts => exact absurd heq (hps _)
  | some ss =>
    cases c with
    | none => exact absurd heq.symm (hqs _)
    | some ts =>
      simp only [alternativePieces, List.cons_append, List.cons.injEq, true_and] at heq
      obtain ⟨rfl, hrest⟩ := (hb ss rfl).inBraces heq
      exact ⟨rfl, hrest⟩

theorem readable_cond {b : List Stmt} {alternative : Option (List Stmt)} (he : e.Readable)
    (hb : AllTold b) (halternative : ∀ c ∈ alternative, AllTold c) :
    (cond e b alternative).Readable := by
  refine readable_of_core fun d ps qs hd hps hqs heq => ?_
  rw [pieces_cond] at heq
  obtain ⟨a, c, alternative', rfl⟩ : Starts .ifWord d :=
    starts_of_pieces (w := Word.sign .ifWord) hd heq
  simp only [pieces_cond, List.cons_append, List.append_assoc, List.cons.injEq, true_and] at heq
  obtain ⟨rfl, hblock⟩ :=
    he.told a _ _ (stops_space (by decide) _) (stops_space (by decide) _) heq
  obtain ⟨rfl, hrest⟩ := hb.inBraces (List.cons.inj hblock).2
  obtain ⟨rfl, rfl⟩ := alternative_inj halternative hps hqs hrest
  exact ⟨rfl, rfl⟩

theorem told_name (x : String) : Told (fun x => [token (name x)]) x := by
  intro y ps qs _ _ heq
  simp only [List.singleton_append, List.cons.injEq, token.injEq, name, Word.mk.injEq,
    String.toList_inj, true_and] at heq
  exact heq

theorem readable_fn (xs : List String) {b : List Stmt} (hb : AllTold b) :
    (fn xs b).Readable := by
  refine readable_of_core fun d ps qs hd hps hqs heq => ?_
  obtain ⟨ys, c, rfl⟩ : Starts .fnWord d := starts_of_pieces (w := Word.sign .fnWord) hd heq
  simp only [pieces, List.cons_append, List.append_assoc, List.cons.injEq, true_and] at heq
  obtain ⟨rfl, hblock⟩ := separated_inj (fun x => ⟨name x, [], rfl, nofun⟩)
    (fun x _ => told_name x) heq
  simp only [List.cons.injEq, true_and] at hblock
  obtain ⟨rfl, hrest⟩ := hb.inBraces hblock
  exact ⟨rfl, hrest⟩

end Expr

/-! ## Every rendering is read in one way -/

mutual

theorem Expr.readable (e : Expr) : e.Readable := by
  match e with
  | .ident x => exact Expr.readable_ident x
  | .int n => exact Expr.readable_int n
  | .str t => exact Expr.readable_str t
  | .bool v => exact Expr.readable_bool v
  | .unary op operand => exact Expr.readable_unary op operand.readable
  | .binary op left right => exact Expr.readable_binary op left.readable right.readable
  | .cond condition consequence none =>
    exact Expr.readable_cond condition.readable (Stmt.allTold consequence) nofun
  | .cond condition consequence (some alternative) =>
    refine Expr.readable_cond condition.readable (Stmt.allTold consequence) ?_
    rintro _ ⟨⟩
    exact Stmt.allTold alternative
  | .fn params body => exact Expr.readable_fn params (Stmt.allTold body)
  | .call callee args => exact callee.readable.call (Expr.all_readable args)

theorem Expr.all_readable (es : List Expr) : ∀ e ∈ es, e.Readable := by
  match es with
  | [] => exact nofun
  | e :: es =>
    rw [List.forall_mem_cons]
    exact ⟨e.readable, Expr.all_readable es⟩

theorem Stmt.told (s : Stmt) : Told Stmt.pieces s := by
  match s with
  | .bind x value => exact Stmt.told_bind x value.readable
  | .ret value => exact Stmt.told_ret value.readable
  | .expr value => exact Stmt.told_expr value.readable

theorem Stmt.allTold (ss : List Stmt) : Stmt.AllTold ss := by
  match ss with
  | [] => exact Stmt.allTold_nil
  | s :: ss => exact (Stmt.allTold ss).cons s.told

end

/-! ## Texts -/

/--
What can follow an expression in a rendering and is no part of it: the end of the text, a sign that
closes or separates, and a space, unless an alternative comes after it.
-/
inductive Delimits : List Char → Prop
  | ending : Delimits []
  | sign {c : Char} {rest : List Char} : c ∈ [')', ',', ';'] → Delimits (c :: rest)
  | space {rest : List Char} : rest.takeWhile Lexer.isWordRest ≠ "else".toList →
      Delimits (' ' :: rest)

open Lexer in
/-- A reserved word is as long as the word that begins there. -/
theorem takeWhile_elseWord {rest : List Char} (h : (Word.sign .elseWord).Leads rest) :
    ("else".toList ++ rest).takeWhile isWordRest = "else".toList := by
  obtain ⟨c, cs, happ, -, hlexeme⟩ := h.lexeme_eq
  obtain ⟨rfl, rfl⟩ : 'e' = c ∧ 'l' :: 's' :: 'e' :: rest = cs := List.cons.inj happ
  have htext := congrArg Lexeme.text hlexeme
  unfold lexeme at htext
  rw [if_pos (by decide)] at htext
  exact htext

namespace Delimits

variable {rest : List Char}

theorem ends (h : Delimits rest) : Ends rest := by
  cases h with
  | ending => exact nofun
  | sign hc =>
    simp only [List.mem_cons, List.not_mem_nil, or_false] at hc
    obtain rfl | rfl | rfl := hc <;> exact ends_cons rfl _
  | space => exact ends_space _

/-- The pieces of a text that delimits an expression stop it. -/
theorem stops (h : Delimits rest) (hps : Decomposes rest ps) : Stops ps := by
  obtain ⟨rfl, hcut⟩ := hps
  constructor
  · rintro qs rfl
    have hrest : texts (Piece.space :: fixed .elseWord :: qs) =
        ' ' :: ("else".toList ++ texts qs) := rfl
    rw [hrest] at h
    cases h with
    | sign hc => exact absurd hc (by decide)
    | space helse => exact helse (by simpa using takeWhile_elseWord hcut.2.1)
  · rintro qs rfl
    have hrest : texts (fixed .lparen :: qs) = '(' :: texts qs := rfl
    rw [hrest] at h
    cases h with
    | sign hc => exact absurd hc (by decide)

end Delimits

namespace Expr

variable {rest tail : List Char}

theorem decomposes_render (he : e.WellFormed) (hrest : Ends rest) (hps : Decomposes rest ps) :
    Decomposes (e.render.toList ++ rest) (e.pieces ++ ps) where
  texts_eq := by rw [texts_append, e.texts_pieces, hps.texts_eq]
  cut := by
    rw [cut_append, List.append_nil, hps.texts_eq]
    exact ⟨e.cut_pieces he hrest, hps.cut⟩

/-- A rendering and what delimits it determine the expression and the rest. -/
theorem render_append_inj (he : e.WellFormed) (hd : d.WellFormed) (hrest : Delimits rest)
    (htail : Delimits tail) (h : e.render.toList ++ rest = d.render.toList ++ tail) :
    e = d ∧ rest = tail := by
  obtain ⟨ps, hps⟩ := exists_decomposes rest
  obtain ⟨qs, hqs⟩ := exists_decomposes tail
  have he := decomposes_render he hrest.ends hps
  have hd := decomposes_render hd htail.ends hqs
  have hpieces : e.pieces ++ ps = d.pieces ++ qs :=
    he.cut.unique hd.cut (by rw [he.texts_eq, hd.texts_eq, h])
  obtain ⟨rfl, rfl⟩ := e.readable.told d ps qs (hrest.stops hps) (htail.stops hqs) hpieces
  exact ⟨rfl, hps.texts_eq.symm.trans hqs.texts_eq⟩

end Expr

namespace Program

theorem pieces_inj {p q : Program} (h : p.pieces = q.pieces) : p = q := by
  have hne (s : Stmt) (ss : List Stmt) : [] ≠ Program.pieces (s :: ss) := by
    obtain ⟨w, rs, hrs, -⟩ := s.exists_pieces
    rw [pieces, hrs]
    exact (List.cons_ne_nil _ _).symm
  cases p with
  | nil =>
    cases q with
    | nil => rfl
    | cons t ts => exact absurd h (hne t ts)
  | cons s ss =>
    cases q with
    | nil => exact absurd h.symm (hne s ss)
    | cons t ts =>
      have hspaced : Stmt.allPieces (s :: ss) ++ [] = Stmt.allPieces (t :: ts) ++ [] :=
        congrArg (space :: · ++ []) h
      exact (Stmt.allTold (s :: ss) (t :: ts) [] [] (.inl rfl) (.inl rfl) hspaced).1

/--
No two programs that texts spell have the same rendering. It rests on a law of expressions: the
rendering of an expression, and a text behind it that delimits it, determine the expression and the
text.
-/
theorem render_determines :
    (∀ source source' p q, ofSource source = .ok p → ofSource source' = .ok q →
      p.render = q.render → p = q) ∧
    ∀ e d : Expr, e.WellFormed → d.WellFormed → ∀ rest tail, Delimits rest → Delimits tail →
      e.render.toList ++ rest = d.render.toList ++ tail → e = d ∧ rest = tail := by
  constructor
  · intro source source' p q hp hq hrender
    have hpieces := decomposes_render (wellFormed_of_ofSource hp)
    have hpieces' := decomposes_render (wellFormed_of_ofSource hq)
    refine pieces_inj (hpieces.cut.unique hpieces'.cut ?_)
    rw [hpieces.texts_eq, hpieces'.texts_eq, hrender]
  · intro e d he hd rest tail hrest htail
    exact Expr.render_append_inj he hd hrest htail

-- Two statements and a call differ by where the space and the parentheses stand.
example :
    render [.expr (.ident "a"), .expr (.binary .add (.ident "b") (.ident "c"))] = "a (b + c)" ∧
      render [.expr (.call (.ident "a") [.binary .add (.ident "b") (.ident "c")])] =
        "a((b + c))" :=
  ⟨rfl, rfl⟩

/-- Two texts of one program, whose rendering does not parse. -/
theorem render_determines_unread :
    (ofSource "if a \x7b b \x7d").isOk = false ∧
      (∃ p q : Program, ofSource "if (a) \x7b b \x7d" = .ok p ∧
        ofSource "if ((a)) \x7b b; \x7d" = .ok q ∧ p.render = "if a \x7b b \x7d" ∧
        q.render = "if a \x7b b \x7d" ∧ p = q) ∧
      Expr.ident "a" = .ident "a" ∧ [')'] = [')'] := by
  have hread (source : String)
      (h : (ofSource source).toOption.map render = some "if a \x7b b \x7d") :
      ∃ p, ofSource source = .ok p ∧ p.render = "if a \x7b b \x7d" := by
    obtain ⟨p, hp, hrender⟩ := Option.map_eq_some_iff.1 h
    cases hsource : ofSource source with
    | error =>
      rw [hsource] at hp
      cases hp
    | ok r =>
      rw [hsource] at hp
      cases hp
      exact ⟨p, rfl, hrender⟩
  obtain ⟨p, hp, hrender⟩ := hread "if (a) \x7b b \x7d" (by decide +kernel)
  obtain ⟨q, hq, hrender'⟩ := hread "if ((a)) \x7b b; \x7d" (by decide +kernel)
  have ha : (Expr.ident "a").WellFormed := by
    refine ⟨⟨'a', [], rfl, by decide, ?_⟩, by decide⟩
    rintro _ ⟨⟩
  refine ⟨by decide +kernel, ⟨p, q, hp, hq, hrender, hrender', ?_⟩, ?_⟩
  · exact render_determines.1 _ _ p q hp hq (hrender.trans hrender'.symm)
  · exact render_determines.2 _ _ ha ha [')'] [')'] (.sign (by decide)) (.sign (by decide)) rfl

end Program

end Monkey

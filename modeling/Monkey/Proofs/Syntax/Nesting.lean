import Monkey.Parser.Nesting
import Monkey.Proofs.Syntax.Indexing

/-! # Loops in place of recursion

The rules with loops and those with one budget for all are two ways of writing the same
parser: wherever both come to an end, they end alike. The same holds of the rules with
loops for any two bounds on the rounds and the depth.
-/

namespace Monkey.Descent

open Token (Kind)

variable {α β σ : Type}

/-! ## Equations -/

theorem peek_bind_congr {f g : Token → Descent β} (h : ∀ t token,
    t.tokens[t.index]? = some token → (f token).runOn t = (g token).runOn t) :
    peek >>= f = peek >>= g := by
  funext t
  change (peek >>= f).runOn t = (peek >>= g).runOn t
  rw [runOn_bind, runOn_bind]
  cases htoken : t.tokens[t.index]? with
  | none =>
    rw [runOn_peek_none htoken]
    rfl
  | some token =>
    rw [runOn_peek htoken]
    exact h t token htoken

theorem refuse_bind (fault : Token → Nat → Fault) (f : α → Descent β) :
    refuse fault >>= f = refuse fault := by
  rw [refuse, bind_assoc]
  rfl

theorem push_bind (item : Descent α) (xs : List α) (f : List α → Descent β) :
    push item xs >>= f = item >>= fun x => f (xs ++ [x]) := by
  simp only [push, bind_assoc, pure_bind]

theorem loop_comma (item : Descent α) (rounds : Nat) (xs : List α) :
    loop comma (push item) (rounds + 1) xs = expect [.comma, .rparen] >>= fun separator =>
      if separator.kind = .comma then push item xs >>= loop comma (push item) rounds
      else pure xs := by
  simp only [loop, comma, bind_assoc, pure_bind, decide_eq_true_eq]

theorem loop_checkNot (closers : List Kind) (item : Descent α) (rounds : Nat) (xs : List α) :
    loop (checkNot closers) (push item) (rounds + 1) xs = peek >>= fun token =>
      if token.kind ∈ closers then pure xs
      else push item xs >>= loop (checkNot closers) (push item) rounds := by
  simp only [loop, checkNot, bind_assoc, pure_bind, decide_eq_true_eq, ite_not]

/-- The token that a handler starts from is the one that was found to bind. -/
theorem loop_binds (expression : Precedence → Descent Expr) (arguments : Descent (List Expr))
    (level : Precedence) (rounds : Nat) (left : Expr) :
    loop (binds level) (extend expression arguments) (rounds + 1) left =
      check .semicolon >>= fun ended => peek >>= fun token =>
        if ¬ended ∧ level < .ofKind token.kind then
          (match continuing? expression arguments token.kind with
            | some handler => handler left
            | none => refuse .noContinuation) >>=
              loop (binds level) (extend expression arguments) rounds
        else pure left := by
  simp only [loop, binds, bind_assoc, pure_bind, decide_eq_true_eq]
  congr 1
  funext ended
  refine peek_bind_congr fun t token htoken => ?_
  split
  · rw [extend, bind_assoc, runOn_bind, runOn_peek htoken]
    rfl
  · rfl

/-! ## Consistency -/

/-- Wherever both readers end, they end alike. -/
def Consistent (p q : Descent α) : Prop :=
  ∀ t o o', p.runOn t = some o → q.runOn t = some o' → o = o'

namespace Consistent

variable {p q : Descent α} {f g : α → Descent β}

theorem refl (p : Descent α) : Consistent p p := by
  intro t o o' ho ho'
  rw [ho] at ho'
  exact Option.some.inj ho'

theorem outOfBudget_left (q : Descent α) : Consistent outOfBudget q := by
  rintro t o o' ⟨⟩

theorem outOfBudget_right (p : Descent α) : Consistent p outOfBudget := by
  rintro t o o' - ⟨⟩

theorem bind (hp : Consistent p q) (hf : ∀ a, Consistent (f a) (g a)) :
    Consistent (p >>= f) (q >>= g) := by
  intro t o o' ho ho'
  rw [runOn_bind] at ho ho'
  obtain ⟨⟨r, u⟩, hrun, ho⟩ := Option.bind_eq_some_iff.1 ho
  obtain ⟨⟨r', u'⟩, hrun', ho'⟩ := Option.bind_eq_some_iff.1 ho'
  obtain ⟨rfl, rfl⟩ := Prod.mk.inj (hp t _ _ hrun hrun')
  cases r with
  | error e =>
    cases ho
    cases ho'
    rfl
  | ok a => exact hf a u o o' ho ho'

theorem bind_right (p : Descent α) (hf : ∀ a, Consistent (f a) (g a)) :
    Consistent (p >>= f) (p >>= g) :=
  (refl p).bind hf

theorem map (hp : Consistent p q) (f : α → β) : Consistent (f <$> p) (f <$> q) := by
  rw [map_eq_pure_bind, map_eq_pure_bind]
  exact hp.bind fun _ => refl _

theorem push {item item' : Descent α} (h : Consistent item item') (xs : List α) :
    Consistent (push item xs) (Descent.push item' xs) :=
  h.bind fun _ => refl _

/-! ## Loops -/

theorem loop {guard : Descent Bool} {body body' : σ → Descent σ}
    (h : ∀ x, Consistent (body x) (body' x)) (rounds rounds' : Nat) (x : σ) :
    Consistent (loop guard body rounds x) (Descent.loop guard body' rounds' x) := by
  induction rounds generalizing rounds' x with
  | zero => exact outOfBudget_left _
  | succ rounds ih =>
    cases rounds' with
    | zero => exact outOfBudget_right _
    | succ rounds' =>
      refine bind_right guard fun again => ?_
      cases again with
      | true => exact (h x).bind fun y => ih rounds' y
      | false => exact refl _

theorem listed {item item' : Descent α} (h : Consistent item item') (rounds rounds' : Nat) :
    Consistent (listed item rounds) (Descent.listed item' rounds') := by
  refine bind_right _ fun closed => ?_
  cases closed with
  | true => exact refl _
  | false => exact h.bind fun x => loop h.push rounds rounds' [x]

/--
The rest of a list read by recursion, and what a loop does that has read the things before: first
one more thing, then its rounds.
-/
theorem moreListed {item item' : Descent α} {more : Descent (List α)} (h : Consistent item item')
    (hmore : ∀ xs rounds, Consistent ((xs ++ ·) <$> more)
      (Descent.push item' xs >>= Descent.loop comma (Descent.push item') rounds))
    (xs : List α) (rounds : Nat) :
    Consistent
      ((xs ++ ·) <$> (item >>= fun x => expect [.comma, .rparen] >>= fun separator =>
        if separator.kind = .comma then more >>= fun ys => pure (x :: ys) else pure [x]))
      (Descent.push item' xs >>= Descent.loop comma (Descent.push item') rounds) := by
  rw [push_bind, map_eq_pure_bind, bind_assoc]
  refine h.bind fun x => ?_
  cases rounds with
  | zero => exact outOfBudget_right _
  | succ rounds =>
    rw [loop_comma, bind_assoc]
    refine bind_right _ fun separator => ?_
    split
    · have hrest := hmore (xs ++ [x]) rounds
      simpa only [map_eq_pure_bind, bind_assoc, pure_bind, List.append_assoc,
        List.singleton_append] using hrest
    · exact refl _

/-! ## Handlers -/

section Handlers

variable {expression expression' : Precedence → Descent Expr} {block block' : Descent Block}
  {parameters parameters' : Descent (List String)} {arguments arguments' : Descent (List Expr)}

theorem sentence (he : ∀ level, Consistent (expression level) (expression' level)) :
    Consistent (sentence expression) (Descent.sentence expression') := by
  refine bind_right _ fun token => ?_
  generalize token.kind = k
  cases k with
  | letWord =>
    refine bind_right _ fun _ => bind_right _ fun name => bind_right _ fun _ => ?_
    exact (he _).bind fun value => refl _
  | returnWord => exact bind_right _ fun _ => (he _).bind fun value => refl _
  | _ => exact (he _).bind fun value => refl _

theorem conditional (he : ∀ level, Consistent (expression level) (expression' level))
    (hb : Consistent block block') :
    Consistent (conditional expression block) (Descent.conditional expression' block') := by
  refine bind_right _ fun _ => bind_right _ fun _ => (he _).bind fun condition => ?_
  refine bind_right _ fun _ => hb.bind fun consequence => bind_right _ fun found => ?_
  cases found with
  | true => exact bind_right _ fun _ => hb.bind fun alternative => refl _
  | false => exact refl _

theorem start (he : ∀ level, Consistent (expression level) (expression' level))
    (hb : Consistent block block') (hp : Consistent parameters parameters') :
    Consistent (start expression block parameters)
      (Descent.start expression' block' parameters') := by
  refine bind_right _ fun token => ?_
  generalize token.kind = k
  cases k with
  | bang | minus => exact bind_right _ fun _ => (he _).bind fun _ => refl _
  | lparen => exact bind_right _ fun _ => (he _).bind fun _ => refl _
  | ifWord => exact conditional he hb
  | fnWord => exact bind_right _ fun _ => hp.bind fun _ => hb.bind fun _ => refl _
  | _ => exact refl _

theorem operation (he : ∀ level, Consistent (expression level) (expression' level))
    (left : Expr) : Consistent (operation expression left) (Descent.operation expression' left) :=
  bind_right _ fun _ => bind_right _ fun _ => (he _).bind fun _ => refl _

theorem application (ha : Consistent arguments arguments') (callee : Expr) :
    Consistent (application arguments callee) (Descent.application arguments' callee) :=
  bind_right _ fun _ => ha.bind fun _ => refl _

theorem extend (he : ∀ level, Consistent (expression level) (expression' level))
    (ha : Consistent arguments arguments') (left : Expr) :
    Consistent (extend expression arguments left)
      (Descent.extend expression' arguments' left) := by
  refine bind_right _ fun token => ?_
  generalize token.kind = k
  cases k with
  | plus | minus | asterisk | slash | lt | gt | eq | notEq => exact operation he left
  | lparen => exact application ha left
  | _ => exact refl _

end Handlers

end Consistent

/-! ## Two bounds -/

namespace Nested

theorem parameters_consistent (rounds rounds' : Nat) :
    Consistent (parameters rounds) (parameters rounds') :=
  .bind_right _ fun _ => (Consistent.refl _).listed _ _

variable (rounds rounds' : Nat)

/-- Each rule with one depth is consistent with itself for another. -/
structure ConsistentAt (depth depth' : Nat) : Prop where
  statement : Consistent (statement rounds depth) (Nested.statement rounds' depth')
  block : Consistent (block rounds depth) (Nested.block rounds' depth')
  expression (level : Precedence) :
    Consistent (expression rounds depth level) (Nested.expression rounds' depth' level)

theorem consistentAt (depth depth' : Nat) : ConsistentAt rounds rounds' depth depth' := by
  induction depth generalizing depth' with
  | zero => constructor <;> intros <;> exact .outOfBudget_left _
  | succ depth ih =>
    cases depth' with
    | zero => constructor <;> intros <;> exact .outOfBudget_right _
    | succ depth' =>
      have h := ih depth'
      constructor
      · exact .sentence h.expression
      · refine .bind_right _ fun _ => ?_
        exact (Consistent.loop h.statement.push _ _ _).bind fun body => .refl _
      · intro level
        refine (Consistent.start h.expression h.block (parameters_consistent _ _)).bind ?_
        have harguments := (h.expression .lowest).listed rounds rounds'
        exact fun left => .loop (.extend h.expression harguments) _ _ left

end Nested

/-! ## Recursion and loops -/

theorem moreParameters_consistent (n : Nat) (names : List String) (rounds : Nat) :
    Consistent ((names ++ ·) <$> moreParameters n)
      (push parameter names >>= loop comma (push parameter) rounds) := by
  induction n generalizing names rounds with
  | zero => exact .outOfBudget_left _
  | succ n ih =>
    have hrest := Consistent.moreListed (.refl parameter) ih names rounds
    rwa [parameter, bind_assoc] at hrest

theorem parameters_consistent (n rounds : Nat) :
    Consistent (parameters n) (Nested.parameters rounds) := by
  refine .bind_right _ fun _ => .bind_right _ fun closed => ?_
  cases closed with
  | true => exact .refl _
  | false =>
    have hrest := moreParameters_consistent n [] rounds
    simp only [push_bind, List.nil_append, id_map'] at hrest
    exact hrest

/-- Each rule with budget `n` is consistent with the one with loops, for any bounds. -/
structure ConsistentWith (n : Nat) : Prop where
  statement (rounds depth : Nat) : Consistent (statement n) (Nested.statement rounds depth)
  statements (rounds depth : Nat) (closers : List Kind) (ss : List Stmt) (k : Nat) :
    Consistent ((ss ++ ·) <$> statements n closers)
      (loop (checkNot closers) (push (Nested.statement rounds depth)) k ss)
  block (rounds depth : Nat) : Consistent (block n) (Nested.block rounds depth)
  expression (rounds depth : Nat) (level : Precedence) :
    Consistent (expression n level) (Nested.expression rounds depth level)
  operand (rounds depth : Nat) :
    Consistent (operand n) (start (Nested.expression rounds depth) (Nested.block rounds depth)
      (Nested.parameters rounds))
  continuation (rounds depth : Nat) (level : Precedence) (left : Expr) (k : Nat) :
    Consistent (continuation n level left) (loop (binds level)
      (extend (Nested.expression rounds depth)
        (listed (Nested.expression rounds depth .lowest) rounds)) k left)
  arguments (rounds depth : Nat) :
    Consistent (arguments n) (listed (Nested.expression rounds depth .lowest) rounds)
  moreArguments (rounds depth : Nat) (es : List Expr) (k : Nat) :
    Consistent ((es ++ ·) <$> moreArguments n)
      (push (Nested.expression rounds depth .lowest) es >>=
        loop comma (push (Nested.expression rounds depth .lowest)) k)

section Step

variable {n : Nat} (ih : ConsistentWith n) (rounds depth : Nat)

include ih

theorem statement_consistent :
    Consistent (statement (n + 1)) (Nested.statement rounds depth) := by
  cases depth with
  | zero => exact .outOfBudget_right _
  | succ depth => exact .sentence (ih.expression rounds depth)

theorem statements_consistent (closers : List Kind) (ss : List Stmt) (k : Nat) :
    Consistent ((ss ++ ·) <$> statements (n + 1) closers)
      (loop (checkNot closers) (push (Nested.statement rounds depth)) k ss) := by
  cases k with
  | zero => exact .outOfBudget_right _
  | succ k =>
    rw [statements, loop_checkNot, map_eq_pure_bind, bind_assoc]
    refine .bind_right _ fun token => ?_
    split
    · rw [pure_bind, List.append_nil]
      exact .refl _
    · rw [push_bind, bind_assoc]
      refine (ih.statement rounds depth).bind fun s => ?_
      have hrest := ih.statements rounds depth closers (ss ++ [s]) k
      simpa only [map_eq_pure_bind, bind_assoc, pure_bind, List.append_assoc,
        List.singleton_append] using hrest

theorem block_consistent : Consistent (block (n + 1)) (Nested.block rounds depth) := by
  cases depth with
  | zero => exact .outOfBudget_right _
  | succ depth =>
    refine .bind_right _ fun _ => ?_
    have hbody := ih.statements rounds depth [.rbrace, .eof] [] rounds
    simp only [List.nil_append, id_map'] at hbody
    exact hbody.bind fun body => .refl _

theorem expression_consistent (level : Precedence) :
    Consistent (expression (n + 1) level) (Nested.expression rounds depth level) := by
  cases depth with
  | zero => exact .outOfBudget_right _
  | succ depth =>
    exact (ih.operand rounds depth).bind fun left => ih.continuation rounds depth level left _

theorem operand_consistent :
    Consistent (operand (n + 1)) (start (Nested.expression rounds depth)
      (Nested.block rounds depth) (Nested.parameters rounds)) :=
  .start (ih.expression rounds depth) (ih.block rounds depth) (parameters_consistent n rounds)

theorem continuation_consistent (level : Precedence) (left : Expr) (k : Nat) :
    Consistent (continuation (n + 1) level left) (loop (binds level)
      (extend (Nested.expression rounds depth)
        (listed (Nested.expression rounds depth .lowest) rounds)) k left) := by
  cases k with
  | zero => exact .outOfBudget_right _
  | succ k =>
    rw [continuation, loop_binds]
    refine .bind_right _ fun ended => .bind_right _ fun token => ?_
    have hrest (e : Expr) := ih.continuation rounds depth level e k
    split
    · generalize token.kind = kind
      cases kind with
      | plus | minus | asterisk | slash | lt | gt | eq | notEq =>
        exact (Consistent.operation (ih.expression rounds depth) left).bind hrest
      | lparen => exact (Consistent.application (ih.arguments rounds depth) left).bind hrest
      | _ =>
        refine Eq.subst (refuse_bind _ _).symm ?_
        exact .refl _
    · exact .refl _

theorem arguments_consistent :
    Consistent (arguments (n + 1)) (listed (Nested.expression rounds depth .lowest) rounds) := by
  refine .bind_right _ fun closed => ?_
  cases closed with
  | true => exact .refl _
  | false =>
    have hrest := ih.moreArguments rounds depth [] rounds
    simp only [push_bind, List.nil_append, id_map'] at hrest
    exact hrest

theorem moreArguments_consistent (es : List Expr) (k : Nat) :
    Consistent ((es ++ ·) <$> moreArguments (n + 1))
      (push (Nested.expression rounds depth .lowest) es >>=
        loop comma (push (Nested.expression rounds depth .lowest)) k) :=
  .moreListed (ih.expression rounds depth .lowest) (ih.moreArguments rounds depth) es k

end Step

theorem consistentWith (n : Nat) : ConsistentWith n := by
  induction n with
  | zero => constructor <;> intros <;> exact .outOfBudget_left _
  | succ n ih =>
    exact ⟨statement_consistent ih, statements_consistent ih, block_consistent ih,
      expression_consistent ih, operand_consistent ih, continuation_consistent ih,
      arguments_consistent ih, moreArguments_consistent ih⟩

end Monkey.Descent

import Monkey.Proofs.Evaluation.Coincidence
import Monkey.Proofs.Evaluation.Depth
import Monkey.Proofs.Scope.Free

/-! # Evaluation depends on free identifiers only

What an expression shows is settled by the values of its free identifiers. What
else the environment binds, in which of its scopes a name is bound and how many
scopes there are make no difference.
-/

namespace Monkey

/--
What an outcome shows: a fault, or whether a `return` is on its way out, with the kind and the
text of the value.
-/
def Outcome.shown : Outcome → Except Fault (Bool × Value.Kind × String)
  | .ok v => .ok (false, v.kind, v.render)
  | .error (.returned v) => .ok (true, v.kind, v.render)
  | .error (.fault e) => .error e

theorem Value.Similar.shown_ok {v w : Value} (h : v.Similar w) :
    Outcome.shown (.ok v) = Outcome.shown (.ok w) := by
  simp only [Outcome.shown, h.alike.1, h.render_eq]

theorem Value.Similar.shown_returned {v w : Value} (h : v.Similar w) :
    Outcome.shown (.error (.returned v)) = Outcome.shown (.error (.returned w)) := by
  simp only [Outcome.shown, h.alike.1, h.render_eq]

theorem Environment.Agree.of_rel {G : Set String} {e e' : Environment Value}
    (h : ∀ x ∈ G, Option.Rel Value.Similar (e.get? x) (e'.get? x)) : Agree G e e' where
  binds x hx := by
    have hrel := h x hx
    unfold Environment.binds
    generalize e.get? x = o, e'.get? x = o' at hrel
    cases hrel <;> rfl
  values x hx v w hv hw := by
    have hrel := h x hx
    rw [hv, hw] at hrel
    cases hrel with
    | some hvw => exact hvw

namespace Eval

theorem Matched.shown_eq {Ok : Value → Session → Value → Session → Prop}
    {Abr : Session → Session → Prop} {p p' : Outcome × Session} (h : Matched Ok Abr p p')
    (hok : ∀ v t w t', Ok v t w t' → v.Similar w) : Outcome.shown p.1 = Outcome.shown p'.1 := by
  cases h with
  | ok h => exact (hok _ _ _ _ h).shown_ok
  | returned hvw => exact hvw.shown_returned
  | fault e => rfl

variable {e : Expr} {s s' : Session}

/-- An expression that ends in one of two environments that agree ends in the other. -/
theorem exists_matched_of_agree (h : Environment.Agree e.free s.env s'.env) {n : Nat}
    {p : Outcome × Session} (hp : (expr n e).runIn s = some p) :
    ∃ p', (expr n e).runIn s' = some p' ∧ Outcome.shown p.1 = Outcome.shown p'.1 := by
  have hscoped : e.Scoped (e.free : Set String) := e.scoped_iff.2 subset_rfl
  obtain ⟨p', hp', hm⟩ := (coincidesAt n).expr e h hscoped s s' rfl rfl p hp
  exact ⟨p', hp', hm.shown_eq fun _ _ _ _ h => h.1⟩

/--
Let two environments hold the same values of the free identifiers of an expression, or functions
that differ in nothing that their bodies look up, and lack the same ones. Then the expression ends
in one of them if it ends in the other, and it shows the same there.
-/
theorem expr_shown_congr
    (h : ∀ x ∈ e.free, Option.Rel Value.Similar (s.env.get? x) (s'.env.get? x)) :
    ((∃ n o, (expr n e).runIn s = some o) ↔ ∃ n o, (expr n e).runIn s' = some o) ∧
      ∀ n n' r r' t t', (expr n e).runIn s = some (r, t) → (expr n' e).runIn s' = some (r', t') →
        Outcome.shown r = Outcome.shown r' := by
  have hagree : Environment.Agree e.free s.env s'.env := .of_rel h
  refine ⟨⟨?_, ?_⟩, ?_⟩
  · rintro ⟨n, o, ho⟩
    obtain ⟨o', ho', -⟩ := exists_matched_of_agree hagree ho
    exact ⟨n, o', ho'⟩
  · rintro ⟨n, o, ho⟩
    obtain ⟨o', ho', -⟩ := exists_matched_of_agree hagree.symm ho
    exact ⟨n, o', ho'⟩
  · intro n n' r r' t t' hr hr'
    obtain ⟨o, ho, hshown⟩ := exists_matched_of_agree hagree hr
    obtain rfl := expr_unique ho hr'
    exact hshown

/-- A function with other captured scopes, other shadowed names, and a name bound nowhere. -/
theorem expr_shown_congr_scopes :
    let body : Block := [.expr (.binary .add (.ident "y") (.ident "k"))]
    let e : Expr := .cond (.binary .lt (.ident "a") (.int 3))
      [.bind "x" (.call (.ident "f") [.ident "a"]), .ret (.ident "x")] (some [.expr (.ident "z")])
    let s : Session :=
      ⟨⟨[("a", .int 2), ("f", .function 0 ["y"] body ⟨[("k", .int 1)], []⟩)], []⟩, 1⟩
    let s' : Session := ⟨⟨[("x", .null)], [[("f", .function 4 ["y"] body
      ⟨[("a", .null)], [[("k", .int 1)]]⟩)], [("f", .null), ("a", .int 2)]]⟩, 7⟩
    ∃ r r' t t', (expr 20 e).runIn s = some (r, t) ∧ (expr 30 e).runIn s' = some (r', t') ∧
      Outcome.shown r = .ok (true, .integer, "3") ∧ Outcome.shown r = Outcome.shown r' := by
  intro body e s s'
  have hbody : Stmt.AllScoped ({"k"} ∪ {x | x ∈ ["y"]}) body :=
    ⟨⟨.inr List.mem_cons_self, .inl rfl⟩, trivial⟩
  have hfree : e.free = {"a", "f", "z"} := by decide
  have h : ∀ x ∈ e.free, Option.Rel Value.Similar (s.env.get? x) (s'.env.get? x) := by
    intro x hx
    rw [hfree] at hx
    simp only [Finset.mem_insert, Finset.mem_singleton] at hx
    rcases hx with rfl | rfl | rfl
    · exact .some (.refl _)
    · refine .some (.function {"k"} hbody ?_ ?_)
      · rintro x rfl
        rfl
      · rintro x rfl v w hv hw
        cases hv
        cases hw
        exact .refl _
    · exact .none
  refine ⟨_, _, _, _, rfl, rfl, by decide, ?_⟩
  exact (expr_shown_congr h).2 20 30 _ _ _ _ rfl rfl

end Eval

end Monkey

import Monkey.Proofs.Identity.Origin
import Monkey.Proofs.Identity.Passing

/-! # Function identity is sound

Functions are compared by their identities. Since every evaluation of a literal takes a
new one, and neither failing nor taking back nor resetting gives one free again, values
that a session has yielded are equal only if they are the same.
-/

namespace Monkey

namespace Value

/-- A value without what is not compared, which is all of a function but its identity. -/
def bare : Value → Value
  | function id _ _ _ => function id [] [] .empty
  | v => v

theorem same_iff {v w : Value} : (v == w) = true ↔ v.bare = w.bare := by
  change same v w = true ↔ _
  cases v <;> cases w <;> simp [same, bare]

theorem same_equivalence : Equivalence fun v w : Value => (v == w) = true where
  refl _ := same_iff.2 rfl
  symm h := same_iff.2 (same_iff.1 h).symm
  trans h h' := same_iff.2 ((same_iff.1 h).trans (same_iff.1 h'))

@[simp] theorem kind_bare (v : Value) : v.bare.kind = v.kind := by
  cases v <;> rfl

theorem IsData.bare_eq {v : Value} (h : v.IsData) : v.bare = v := by
  cases v with
  | function => exact absurd rfl h
  | _ => rfl

/-- Values whose functions were made one after the other are the same if they are equal. -/
theorem eq_of_same {made : List Value} {first last : Nat} (hmade : Eval.Numbered first made last)
    {v w : Value} (hv : v.From made) (hw : w.From made) (h : (v == w) = true) : v = w := by
  have hbare : v.bare = w.bare := same_iff.1 h
  have hkind : v.kind = w.kind := by rw [← kind_bare v, hbare, kind_bare]
  by_cases hfunction : v.kind = .function
  · obtain ⟨j, hj⟩ := List.mem_iff_getElem?.1 (hv.mem hfunction)
    obtain ⟨k, hk⟩ := List.mem_iff_getElem?.1 (hw.mem (hkind.symm.trans hfunction))
    obtain rfl := hmade.eq_of_same hj hk h
    exact Option.some.inj (hj.symm.trans hk)
  · have hdata : w.IsData := fun hw' => hfunction (hkind.trans hw')
    rw [← IsData.bare_eq hfunction, hbare, hdata.bare_eq]

end Value

namespace Session

/--
Values that the visits of a session yield are equal only if they are the same, with all that a
function captures, and a function among them comes from one evaluation of a literal and no other:
no two evaluations make equal functions. What hands a value on hands on this very value, through
later programs and steps as well. Equality is an equivalence of values.
-/
theorem identity_sound {firstId : Nat} {visits : List Visit} {s : Session}
    (h : History (fresh firstId) visits s) :
    (∀ v w, Yielded visits v → Yielded visits w → (v == w) = true → v = w) ∧
      (∀ v, Yielded visits v → v.kind = .function → ∃! k : Nat, (allMade visits)[k]? = some v) ∧
      (∀ (j k : Nat) (v w : Value), (allMade visits)[j]? = some v → (allMade visits)[k]? = some w →
        (v == w) = true → j = k) ∧
      (∀ f Γ steps t Γ', s.env.Fits f Γ → Carried s Γ steps t Γ' →
        ∀ p Γ₁ n o u, Block.Has Γ' .it .any p Γ₁ .it → t.perform n (.execute p) = some (o, u) →
          o = some (.ok f) ∨ ∃ e, o = some (.error (.fault e))) ∧
      Equivalence fun v w : Value => (v == w) = true := by
  have hnumbered : Eval.Numbered firstId (allMade visits) s.nextId := h.numbered
  refine ⟨?_, ?_, ?_, ?_, Value.same_equivalence⟩
  · intro v w hv hw hvw
    exact Value.eq_of_same hnumbered (hv.drawn h) (hw.drawn h) hvw
  · intro v hv hkind
    obtain ⟨k, hk⟩ := List.mem_iff_getElem?.1 ((hv.drawn h).mem hkind)
    refine ⟨k, hk, fun j hj => ?_⟩
    exact hnumbered.eq_of_same hj hk (Value.same_iff.2 rfl)
  · intro j k v w hj hk hvw
    exact hnumbered.eq_of_same hj hk hvw
  · intro f Γ steps t Γ' hfits hcarried p Γ₁ n o u hp hperform
    exact outcome_of_has (hcarried.fits hfits) hp hperform

/--
One literal evaluated before a reset, after it, in a program that is taken back, and again after
that. What was bound first after the reset goes through a function of a later program.
-/
theorem identity_sound_passed :
    let literal : Expr := .fn [] []
    let made : Expr := .call (.ident "make") []
    let make : Value := .function 1 [] [.ret literal] ⟨[], [[]]⟩
    let result (id : Nat) : Value := .function id [] [] ⟨[], [[], [], []]⟩
    let s : Session := ⟨⟨[("g", result 4), ("f", result 2), ("make", make)], []⟩, 5⟩
    let visits : List Visit := [
      ⟨.statement (.expr literal), some (.ok (.function 0 [] [] .empty)),
        [.function 0 [] [] .empty], ⟨.empty, 1⟩⟩,
      ⟨.reset, none, [], ⟨.empty, 1⟩⟩,
      ⟨.execute [.bind "make" (.fn [] [.ret literal]), .bind "f" made], some (.ok (result 2)),
        [make, result 2], ⟨⟨[("f", result 2), ("make", make)], []⟩, 3⟩⟩,
      ⟨.execute [.bind "g" made, .expr (.ident "y")], some (.error (.fault (.undefined "y"))),
        [result 3], ⟨⟨[("f", result 2), ("make", make)], []⟩, 4⟩⟩,
      ⟨.statement (.bind "g" made), some (.ok (result 4)), [result 4], s⟩]
    let pass : Expr := .fn ["x"] [.expr (.cond (.ident "b") [.ret (.ident "x")] none),
      .expr (.ident "x")]
    let later : Action := .execute [.bind "b" (.bool true), .bind "pass" pass]
    let last : Action := .execute [.bind "h" (.call (.ident "pass") [.ident "f"]),
      .ret (.ident "h")]
    History (fresh 0) visits s ∧ (result 2 == result 4) = false ∧
      (∃! k : Nat, (allMade visits)[k]? = some (result 2)) ∧
      ∃ os t, s.performAll 20 [later, last] = some (os, t) ∧
        os.getLast? = some (some (.ok (result 2))) := by
  intro literal made make result s visits pass later last
  have h : History (fresh 0) visits s := by
    have h₁ : History (fresh 0) (visits.take 1) _ := @History.step _ [] _ _ _ 20 _ .start rfl
    have h₂ : History (fresh 0) (visits.take 2) _ := @History.step _ _ _ _ _ 20 _ h₁ rfl
    have h₃ : History (fresh 0) (visits.take 3) _ := @History.step _ _ _ _ _ 20 _ h₂ rfl
    have h₄ : History (fresh 0) (visits.take 4) _ := @History.step _ _ _ _ _ 20 _ h₃ rfl
    exact @History.step _ _ _ _ _ 20 _ h₄ rfl
  obtain ⟨-, hunique, hseparate, hpassed, -⟩ := identity_sound h
  have hbound : Yielded visits (result 2) :=
    @Yielded.bound _ _ "f" _ (List.getLast_mem (by simp [visits])) rfl
  -- Whatever the condition in `pass` is, it gives back its argument.
  have hbody (Γ : Roles) : Block.Has (Γ.assign [("x", .it)]) .it .any
      [.expr (.cond (.ident "b") [.ret (.ident "x")] none), .expr (.ident "x")]
      (Γ.assign [("x", .it)]) .it :=
    .cons (.expr (.condOnly (.ident (.inr rfl)) (.left (.ret (.ident (.inl rfl))))))
      (.cons (.expr (.ident (.inl rfl))) (.nil (.inl rfl)))
  have hpass (Γ : Roles) : pass.Has Γ .never (.function [.it] .it) :=
    @Expr.Has.literal _ _ _ _ [.it] _ _ (hbody Γ)
  let Γ : Roles := Function.update (Function.update (Roles.only "f") "b" .any) "pass"
    (.function [.it] .it)
  have hlater : Block.Has (.only "f") .never .any [.bind "b" (.bool true), .bind "pass" pass] Γ
      (.function [.it] .it) := .cons (.bind .bool) (.cons (.bind (hpass _)) (.nil (.inl rfl)))
  have hlast : Block.Has Γ .it .any
      [.bind "h" (.call (.ident "pass") [.ident "f"]), .ret (.ident "h")] _ .it :=
    .cons (.bind (.call (.ident (.inl rfl)) (.cons (.ident (.inl rfl)) .nil) (.inl rfl)))
      (.left (.ret (.ident (.inl rfl))))
  refine ⟨h, ?_, hunique _ hbound rfl, _, _, rfl, ?_⟩
  · refine Bool.eq_false_iff.2 fun hsame => ?_
    exact absurd (hseparate 2 4 _ _ rfl rfl hsame) (by decide)
  · have hcarried : Carried s (.only "f") [(later, some (.ok _))] _ Γ :=
      @Carried.step _ _ [] _ _ _ _ _ 20 _ .start rfl (.execute hlater)
    rcases hpassed _ _ _ _ _ (.only rfl) hcarried _ _ 20 _ _ hlast rfl with hf | ⟨e, he⟩
    · exact congrArg some hf
    · cases he

end Session

end Monkey

import Monkey.Proofs.Syntax.Locality
import Monkey.Proofs.Syntax.Reading

/-! # What a parser consumes

A judgement about the tokens that a parser reads until it succeeds, and about
those before the token that its fault is about. One rule for each way in which
parsers are put together.
-/

namespace Monkey.Parser

open Token

variable {α β : Type}

/--
Where `p` ends from `c`: after a success, the result and the tokens that were read satisfy `ok`;
after a fault, the tokens before the one that it is about satisfy `fail`.
-/
def Consumes (p : Parser α) (c : Cursor) (ok : α → List Token → Cursor → Prop)
    (fail : List Token → Prop) : Prop :=
  ∀ r c', p.runAt c = some (r, c') →
    match r with
    | .ok a => ∃ ts, c.Reads ts c' ∧ ok a ts c'
    | .error e => ∃ ts d, c.Reads ts d ∧ e.index? = some d.index ∧ fail ts

namespace Consumes

variable {p : Parser α} {f : α → Parser β} {c : Cursor} {ok ok' : α → List Token → Cursor → Prop}
  {fail fail' : List Token → Prop} {Q : β → List Token → Cursor → Prop}

theorem imp (h : Consumes p c ok fail) (hok : ∀ a ts d, c.Reads ts d → ok a ts d → ok' a ts d)
    (hfail : ∀ ts d, c.Reads ts d → fail ts → fail' ts) : Consumes p c ok' fail' := by
  intro r c' hr
  have hp := h r c' hr
  cases r with
  | ok a =>
    obtain ⟨ts, hts, ha⟩ := hp
    exact ⟨ts, hts, hok a ts c' hts ha⟩
  | error e =>
    obtain ⟨ts, d, hts, he, hf⟩ := hp
    exact ⟨ts, d, hts, he, hfail ts d hts hf⟩

theorem outOfBudget : Consumes (outOfBudget : Parser α) c ok fail := by
  rintro r c' hr
  cases hr

theorem pure {a : α} (h : ok a [] c) : Consumes (Pure.pure a) c ok fail := by
  rintro r c' hr
  cases hr
  exact ⟨[], .refl c, h⟩

theorem refuse {fault : Token → Nat → Fault} (hfault : ∀ t i, (fault t i).index? = some i)
    (h : fail []) : Consumes (refuse fault) c ok fail := by
  rintro r c' hr
  cases hr
  exact ⟨[], c, .refl c, hfault _ _, h⟩

theorem bind (hp : Consumes p c ok fail)
    (hf : ∀ a us d, c.Reads us d → ok a us d →
      Consumes (f a) d (fun b ts => Q b (us ++ ts)) fun ts => fail' (us ++ ts))
    (hfail : ∀ ts d, c.Reads ts d → fail ts → fail' ts) : Consumes (p >>= f) c Q fail' := by
  intro r c' hr
  rw [runAt_bind] at hr
  obtain ⟨⟨r₁, d⟩, h₁, hr⟩ := Option.bind_eq_some_iff.1 hr
  have hp' := hp r₁ d h₁
  cases r₁ with
  | error e =>
    cases hr
    obtain ⟨ts, b, hts, he, hb⟩ := hp'
    exact ⟨ts, b, hts, he, hfail ts b hts hb⟩
  | ok a =>
    obtain ⟨us, hus, ha⟩ := hp'
    have hq := hf a us d hus ha r c' hr
    cases r with
    | ok b =>
      obtain ⟨ts, hts, hb⟩ := hq
      exact ⟨us ++ ts, hus.trans hts, hb⟩
    | error e =>
      obtain ⟨ts, b, hts, he, hb⟩ := hq
      exact ⟨us ++ ts, b, hus.trans hts, he, hb⟩

theorem peek_bind {f : Token → Parser β} (h : Consumes (f c.peek) c Q fail) :
    Consumes (peek >>= f) c Q fail := h

theorem advance_bind {f : Unit → Parser β} (hc : c.peek.kind ≠ .eof)
    (hf : ∀ d, c.Reads [c.peek] d → Consumes (f ()) d (fun b ts => Q b (c.peek :: ts))
      fun ts => fail (c.peek :: ts)) : Consumes (advance >>= f) c Q fail := by
  have hread : Consumes advance c (fun _ ts _ => ts = [c.peek]) fun _ => False := by
    rintro r c' hr
    cases hr
    exact ⟨_, .advance hc, rfl⟩
  apply hread.bind
  · rintro ⟨⟩ us d hd rfl
    exact hf d hd
  · exact fun _ _ _ => False.elim

theorem expect_bind {kinds : List Kind} {f : Token → Parser β} (hkinds : .eof ∉ kinds)
    (hfail : fail [])
    (hf : ∀ t d, t.kind ∈ kinds → c.Reads [t] d → Consumes (f t) d (fun b ts => Q b (t :: ts))
      fun ts => fail (t :: ts)) : Consumes (expect kinds >>= f) c Q fail := by
  have hread : Consumes (expect kinds) c (fun t ts _ => ts = [t] ∧ t.kind ∈ kinds)
      fun ts => ts = [] := by
    rintro r c' hr
    rw [runAt_expect] at hr
    split at hr
    · next hk =>
      cases hr
      exact ⟨_, .advance fun heof => hkinds (heof ▸ hk), rfl, hk⟩
    · cases hr
      exact ⟨[], c, .refl c, rfl, rfl⟩
  apply hread.bind
  · rintro t us d hd ⟨rfl, ht⟩
    exact hf t d ht hd
  · rintro ts d _ rfl
    exact hfail

theorem accept_bind {kind : Kind} {f : Bool → Parser β} (hkind : kind ≠ .eof)
    (htrue : ∀ t d, t.kind = kind → c.Reads [t] d → Consumes (f true) d
      (fun b ts => Q b (t :: ts)) fun ts => fail (t :: ts))
    (hfalse : c.peek.kind ≠ kind → Consumes (f false) c Q fail) :
    Consumes (accept kind >>= f) c Q fail := by
  have hread : Consumes (accept kind) c (fun found ts d =>
      (found = true ∧ ∃ t, ts = [t] ∧ t.kind = kind) ∨
        (found = false ∧ ts = [] ∧ d = c ∧ c.peek.kind ≠ kind)) fun _ => False := by
    rintro r c' hr
    rw [runAt_accept] at hr
    split at hr
    · next hk =>
      cases hr
      exact ⟨_, .advance (by rwa [hk]), .inl ⟨by simpa using hk, _, rfl, hk⟩⟩
    · next hk =>
      cases hr
      exact ⟨[], .refl c, .inr ⟨by simpa using hk, rfl, rfl, hk⟩⟩
  apply hread.bind
  · rintro found us d hd (⟨rfl, t, rfl, ht⟩ | ⟨rfl, rfl, rfl, hk⟩)
    · exact htrue t d ht hd
    · exact hfalse hk
  · exact fun _ _ _ => False.elim

end Consumes

end Monkey.Parser

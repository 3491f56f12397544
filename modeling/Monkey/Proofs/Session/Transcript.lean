import Monkey.Proofs.Session.Batch

/-! # Transcripts

What is seen of an evaluator that executes whole programs: for each of them a
fault, or the kind and the text of a value. Two evaluators show the same
transcripts if their states can be related so that each answers every request as
the other does.
-/

namespace Monkey

/-- What can be asked of an evaluator that keeps to whole programs. -/
inductive Request
  | execute (p : Program)
  | reset

/-- What a request shows; a reset shows nothing. -/
abbrev Answer := Option (Except Fault (Value.Kind × String))

/-- The answers to several requests, one after the other, when all of them end. -/
inductive Transcript {σ : Type} (answers : σ → Request → Answer → σ → Prop) :
    σ → List Request → List Answer → Prop
  | nil (s : σ) : Transcript answers s [] []
  | cons {s t : σ} {q : Request} {a : Answer} {qs : List Request} {as : List Answer} :
      answers s q a t → Transcript answers t qs as → Transcript answers s (q :: qs) (a :: as)

namespace Transcript

variable {σ τ : Type} {A : σ → Request → Answer → σ → Prop} {B : τ → Request → Answer → τ → Prop}
  {qs : List Request} {as as' : List Answer}

/-- Answers that are matched request by request are matched in every transcript. -/
theorem of_simulation {R : σ → τ → Prop} {s : σ} {t : τ} (h : Transcript A s qs as) (hR : R s t)
    (hstep : ∀ s t q a s', R s t → A s q a s' → ∃ t', B t q a t' ∧ R s' t') :
    Transcript B t qs as := by
  induction h generalizing t with
  | nil => exact .nil t
  | cons ha _ ih =>
    obtain ⟨t', hb, hR'⟩ := hstep _ _ _ _ _ hR ha
    exact .cons hb (ih hR')

/-- An evaluator that has one answer to a request has one transcript. -/
theorem unique {s : σ} (h : Transcript A s qs as) (h' : Transcript A s qs as')
    (hstep : ∀ s q a t a' t', A s q a t → A s q a' t' → a = a' ∧ t = t') : as = as' := by
  induction h generalizing as' with
  | nil =>
    cases h'
    rfl
  | cons ha _ ih =>
    cases h' with
    | cons ha' hrest =>
      obtain ⟨rfl, rfl⟩ := hstep _ _ _ _ _ _ ha ha'
      rw [ih hrest]

end Transcript

namespace Session

/-- How a session answers a request, at whatever depth its evaluation ends. -/
def Answers (s : Session) : Request → Answer → Session → Prop
  | .execute p, a, t => ∃ depth r, s.execute depth p = some (r, t) ∧ a = some (shown r)
  | .reset, a, t => a = none ∧ t = s.reset

theorem Answers.unique {s t t' : Session} {q : Request} {a a' : Answer} (h : s.Answers q a t)
    (h' : s.Answers q a' t') : a = a' ∧ t = t' := by
  cases q with
  | execute p =>
    obtain ⟨m, r, hr, rfl⟩ := h
    obtain ⟨n, r', hr', rfl⟩ := h'
    cases execute_unique hr hr'
    exact ⟨rfl, rfl⟩
  | reset =>
    obtain ⟨rfl, rfl⟩ := h
    obtain ⟨rfl, rfl⟩ := h'
    exact ⟨rfl, rfl⟩

end Session

end Monkey

import Mathlib.Data.List.Forall2
import Monkey.Proofs.Lexical.Reference

/-! # Scope chains as flat maps

A chain of scopes and a flat map stand for each other if they give the same
names values that stand for each other, and two functions do if the chain and
the map that they captured do. The names declared in the current scope are those
that the innermost scope of the chain binds.
-/

namespace Monkey.Lexical

/-- Values of which one holds a scope chain where the other holds a map. -/
inductive Represents : Monkey.Value → Value → Prop
  | data {v : Monkey.Value} (h : v.IsData) : Represents v (.data v h)
  | function {id : Nat} {params : List String} {body : List Stmt}
      {c : Environment Monkey.Value} {m : Scope Value} :
      (∀ x, c.binds x = m.binds x) →
      (∀ x v w, c.get? x = some v → m.get? x = some w → Represents v w) →
      Represents (.function id params body c) (.function params body m)

/-- Whether a map gives every name what a scope chain gives it. -/
structure Flattens (e : Environment Monkey.Value) (m : Scope Value) : Prop where
  binds : ∀ x, e.binds x = m.binds x
  values : ∀ x v w, e.get? x = some v → m.get? x = some w → Represents v w

/-- Whether a frame stands for a scope chain: its map, and what is declared in the current scope. -/
structure Mirrors (e : Environment Monkey.Value) (f : Frame) : Prop where
  flattens : Flattens e f.bindings
  declared : ∀ x, Scope.binds e.current x = true ↔ x ∈ f.declared

namespace Represents

variable {v : Monkey.Value} {w : Value}

theorem alike (h : Represents v w) : v.Alike w.outline := by
  cases h with
  | data h => exact ⟨rfl, fun _ => rfl⟩
  | function => exact ⟨rfl, fun h => absurd rfl h⟩

theorem render_eq (h : Represents v w) : v.render = w.outline.render := by
  cases h <;> rfl

end Represents

section

variable {e : Environment Monkey.Value} {m : Scope Value} {f : Frame}

namespace Flattens

theorem empty : Flattens .empty [] where
  binds _ := rfl
  values x v w hv hw := by simp [Scope.get?] at hw

theorem get? (h : Flattens e m) (x : String) :
    (e.get? x = none ∧ m.get? x = none) ∨
      ∃ v w, e.get? x = some v ∧ m.get? x = some w ∧ Represents v w := by
  have hb := h.binds x
  unfold Environment.binds Scope.binds at hb
  cases hv : e.get? x with
  | none => exact .inl ⟨rfl, by simpa [hv] using hb⟩
  | some v =>
    obtain ⟨w, hw⟩ := Option.isSome_iff_exists.1 (hb.symm.trans (by simp [hv]))
    exact .inr ⟨v, w, rfl, hw, h.values x v w hv hw⟩

theorem of_get?_eq {d : Environment Monkey.Value} (h : Flattens e m)
    (hd : ∀ x, d.get? x = e.get? x) : Flattens d m where
  binds x := by
    unfold Environment.binds
    rw [hd]
    exact h.binds x
  values x v w hv hw := h.values x v w (hd x ▸ hv) hw

theorem commit (h : Flattens e m) : Flattens e.commit m :=
  h.of_get?_eq (Environment.get?_commit e)

/-- A scope entered in the chain is a scope begun on a copy of the map. -/
theorem enter (h : Flattens e m) : Mirrors e.enter (.start m) where
  flattens := h.of_get?_eq e.get?_enter
  declared x := by simp [Environment.enter, Scope.binds, Scope.get?, Frame.start]

end Flattens

namespace Mirrors

theorem define {e' : Environment Monkey.Value} {f' : Frame} {name : String} {v : Monkey.Value}
    {w : Value} (h : Mirrors e f) (hvw : Represents v w) (he : e.define name v = .ok e')
    (hf : f.declare name w = .ok f') : Mirrors e' f' where
  flattens := by
    refine ⟨fun x => ?_, fun x a b ha hb => ?_⟩
    · have hx := h.flattens.binds x
      unfold Environment.binds Scope.binds at hx ⊢
      rw [Environment.get?_define he, Frame.get?_declare hf]
      split
      · rfl
      · exact hx
    · rw [Environment.get?_define he] at ha
      rw [Frame.get?_declare hf] at hb
      split at ha
      · next heq =>
        rw [if_pos heq] at hb
        cases ha
        cases hb
        exact hvw
      · next hne =>
        rw [if_neg hne] at hb
        exact h.flattens.values x a b ha hb
  declared x := by
    have hx := h.declared x
    obtain ⟨-, rfl⟩ := Environment.define_eq_ok_iff.1 he
    obtain ⟨-, rfl⟩ := Frame.declare_eq_ok_iff.1 hf
    unfold Scope.binds at hx ⊢
    rw [Scope.get?_cons, List.mem_cons]
    split
    · next heq => simp [heq]
    · next hne => simp [hne, hx]

/-- A name can be bound in the innermost scope of the chain just if it can be declared. -/
theorem define_cases (h : Mirrors e f) (name : String) {v : Monkey.Value} {w : Value}
    (hvw : Represents v w) :
    (e.define name v = .error (.duplicate name) ∧ f.declare name w = .error (.duplicate name)) ∨
      ∃ e' f', e.define name v = .ok e' ∧ f.declare name w = .ok f' ∧ Mirrors e' f' := by
  have hd := h.declared name
  by_cases hb : Scope.binds e.current name = true
  · exact .inl ⟨by rw [Environment.define, if_pos hb], by rw [Frame.declare, if_pos (hd.1 hb)]⟩
  · obtain ⟨e', he⟩ : ∃ e', e.define name v = .ok e' :=
      ⟨_, Environment.define_eq_ok_iff.2 ⟨Bool.eq_false_iff.2 hb, rfl⟩⟩
    obtain ⟨f', hf⟩ : ∃ f', f.declare name w = .ok f' :=
      ⟨_, Frame.declare_eq_ok_iff.2 ⟨mt hd.2 hb, rfl⟩⟩
    exact .inr ⟨e', f', he, hf, h.define hvw he hf⟩

theorem defineAll_cases (h : Mirrors e f) {params : List String} {vs : List Monkey.Value}
    {ws : List Value} (hvs : List.Forall₂ Represents vs ws) (hlen : params.length = vs.length) :
    (∃ name, e.defineAll (params.zip vs) = .error (.duplicate name) ∧
        f.declareAll (params.zip ws) = .error (.duplicate name)) ∨
      ∃ e' f', e.defineAll (params.zip vs) = .ok e' ∧ f.declareAll (params.zip ws) = .ok f' ∧
        Mirrors e' f' := by
  induction hvs generalizing params e f with
  | nil =>
    obtain rfl : params = [] := List.length_eq_zero_iff.1 hlen
    exact .inr ⟨e, f, rfl, rfl, h⟩
  | @cons v w vs ws hvw _ ih =>
    obtain ⟨name, params, rfl⟩ := List.exists_cons_of_length_eq_add_one hlen
    simp only [List.zip_cons_cons, Environment.defineAll, Frame.declareAll]
    rcases h.define_cases name hvw with ⟨he, hf⟩ | ⟨e', f', he, hf, h'⟩
    · rw [he, hf]
      exact .inl ⟨name, rfl, rfl⟩
    · rw [he, hf]
      exact ih h' (Nat.succ.inj hlen)

end Mirrors

end

end Monkey.Lexical

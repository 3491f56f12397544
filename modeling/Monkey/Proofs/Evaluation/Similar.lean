import Mathlib.Data.List.Forall2
import Monkey.Proofs.Evaluation.Operators
import Monkey.Proofs.Scope.WellScoped

/-! # Values that no program can tell apart

Two values are similar if they are the same data, or functions with the same
parameters and body whose captured environments agree on the names that the body
looks up. Two environments agree on a set of names if they bind the same of them,
to similar values. How the scopes are divided, and in which of them a name is
bound, plays no part.
-/

namespace Monkey

/-- Values with the same text of which every use gives the same. -/
inductive Value.Similar : Value → Value → Prop
  | data {v : Value} : v.IsData → Similar v v
  | function {i j : Nat} {params : List String} {body : List Stmt}
      {c c' : Environment Value} (G : Set String) :
      Stmt.AllScoped (G ∪ {x | x ∈ params}) body → (∀ x ∈ G, c.binds x = c'.binds x) →
      (∀ x ∈ G, ∀ v w, c.get? x = some v → c'.get? x = some w → Similar v w) →
      Similar (.function i params body c) (.function j params body c')

/-- Whether two environments bind the same names of `G`, to similar values. -/
structure Environment.Agree (G : Set String) (e e' : Environment Value) : Prop where
  binds : ∀ x ∈ G, e.binds x = e'.binds x
  values : ∀ x ∈ G, ∀ v w, e.get? x = some v → e'.get? x = some w → v.Similar w

/-- Whether the innermost scopes of two environments bind the same names of `D`. -/
def Environment.SameScope (D : Set String) (e e' : Environment Value) : Prop :=
  ∀ x ∈ D, Scope.binds e.current x = Scope.binds e'.current x

namespace Environment

variable {G H D : Set String} {e e' : Environment Value}

theorem Agree.subset (h : Agree G e e') (hH : H ⊆ G) : Agree H e e' :=
  ⟨fun x hx => h.binds x (hH hx), fun x hx => h.values x (hH hx)⟩

theorem Agree.get? (h : Agree G e e') {x : String} (hx : x ∈ G) :
    (e.get? x = none ∧ e'.get? x = none) ∨
      ∃ v w, e.get? x = some v ∧ e'.get? x = some w ∧ v.Similar w := by
  have hb := h.binds x hx
  unfold Environment.binds at hb
  cases hv : e.get? x with
  | none => exact .inl ⟨rfl, by simpa [hv] using hb⟩
  | some v =>
    obtain ⟨w, hw⟩ := Option.isSome_iff_exists.1 (hb.symm.trans (by simp [hv]))
    exact .inr ⟨v, w, rfl, hw, h.values x hx v w hv hw⟩

theorem Agree.of_get?_eq {d d' : Environment Value} (h : Agree G e e')
    (hd : ∀ x, d.get? x = e.get? x) (hd' : ∀ x, d'.get? x = e'.get? x) : Agree G d d' where
  binds x hx := by
    unfold Environment.binds
    rw [hd, hd']
    exact h.binds x hx
  values x hx v w hv hw := h.values x hx v w (hd x ▸ hv) (hd' x ▸ hw)

theorem Agree.enter (h : Agree G e e') : Agree G e.enter e'.enter :=
  h.of_get?_eq e.get?_enter e'.get?_enter

theorem Agree.commit (h : Agree G e e') : Agree G e.commit e'.commit :=
  h.of_get?_eq (get?_commit e) (get?_commit e')

theorem SameScope.enter : SameScope D e.enter e'.enter := fun _ _ => rfl

theorem SameScope.define {d d' : Environment Value} {name : String} {v w : Value}
    (h : SameScope D e e') (hd : e.define name v = .ok d) (hd' : e'.define name w = .ok d') :
    SameScope D d d' := by
  obtain ⟨-, rfl⟩ := define_eq_ok_iff.1 hd
  obtain ⟨-, rfl⟩ := define_eq_ok_iff.1 hd'
  intro x hx
  simp only [Scope.binds, Scope.get?_cons]
  split
  · rfl
  · exact h x hx

theorem Agree.define {d d' : Environment Value} {name : String} {v w : Value}
    (h : Agree G e e') (hv : v.Similar w) (hd : e.define name v = .ok d)
    (hd' : e'.define name w = .ok d') : Agree (G ∪ {name}) d d' where
  binds x hx := by
    unfold Environment.binds
    rw [get?_define hd, get?_define hd']
    split
    · rfl
    · next hne => exact h.binds x (hx.resolve_right hne)
  values x hx a b ha hb := by
    rw [get?_define hd] at ha
    rw [get?_define hd'] at hb
    split at ha
    · next heq =>
      rw [if_pos heq] at hb
      cases ha
      cases hb
      exact hv
    · next hne =>
      rw [if_neg hne] at hb
      exact h.values x (hx.resolve_right hne) a b ha hb

/-- Environments whose innermost scopes bind the same names accept the same bindings. -/
theorem SameScope.define_cases (h : SameScope D e e') {name : String} (hname : name ∈ D)
    (v w : Value) :
    (e.define name v = .error (.duplicate name) ∧ e'.define name w = .error (.duplicate name)) ∨
      ∃ d d', e.define name v = .ok d ∧ e'.define name w = .ok d' := by
  have hs := h name hname
  unfold Environment.define
  rw [← hs]
  split
  · exact .inl ⟨rfl, rfl⟩
  · exact .inr ⟨_, _, rfl, rfl⟩

theorem Agree.defineAll {params : List String} {vs ws : List Value}
    (h : Agree G e e') (hs : SameScope Set.univ e e') (hvs : List.Forall₂ Value.Similar vs ws)
    (hlen : params.length = vs.length) :
    (∃ name, e.defineAll (params.zip vs) = .error (.duplicate name) ∧
        e'.defineAll (params.zip ws) = .error (.duplicate name)) ∨
      ∃ d d', e.defineAll (params.zip vs) = .ok d ∧ e'.defineAll (params.zip ws) = .ok d' ∧
        Agree (G ∪ {x | x ∈ params}) d d' := by
  induction hvs generalizing params e e' G with
  | nil =>
    obtain rfl : params = [] := List.length_eq_zero_iff.1 hlen
    exact .inr ⟨e, e', rfl, rfl, h.subset (by simp)⟩
  | @cons v w vs ws hv _ ih =>
    obtain ⟨name, params, rfl⟩ : ∃ x xs, params = x :: xs := by
      cases params with
      | nil => simp at hlen
      | cons x xs => exact ⟨x, xs, rfl⟩
    simp only [List.zip_cons_cons, Environment.defineAll]
    rcases hs.define_cases (Set.mem_univ name) v w with ⟨hd, hd'⟩ | ⟨d, d', hd, hd'⟩
    · rw [hd, hd']
      exact .inl ⟨name, rfl, rfl⟩
    · rw [hd, hd']
      rcases ih (h.define hv hd hd') (hs.define hd hd') (Nat.succ.inj hlen) with herr | hok
      · exact .inl herr
      · obtain ⟨f, f', hf, hf', hagree⟩ := hok
        refine .inr ⟨f, f', hf, hf', hagree.subset ?_⟩
        rintro x (hx | hx)
        · exact .inl (.inl hx)
        · rcases List.mem_cons.1 hx with rfl | hx
          · exact .inl (.inr rfl)
          · exact .inr hx

end Environment

namespace Value

theorem Similar.alike {v w : Value} (h : v.Similar w) : v.Alike w := by
  cases h with
  | data _ => exact ⟨rfl, fun _ => rfl⟩
  | function => exact ⟨rfl, fun h => absurd rfl h⟩

theorem Similar.render_eq {v w : Value} (h : v.Similar w) : v.render = w.render := by
  cases h <;> rfl

theorem Similar.symm {v w : Value} (h : v.Similar w) : w.Similar v := by
  induction h with
  | data h => exact .data h
  | function G hbody hbinds _ ih =>
    exact .function G hbody (fun x hx => (hbinds x hx).symm) fun x hx v w hv hw =>
      ih x hx w v hw hv

end Value

mutual

theorem Expr.scoped_univ : ∀ e : Expr, e.Scoped Set.univ
  | .ident _ => trivial
  | .int _ | .str _ | .bool _ => trivial
  | .unary _ operand => operand.scoped_univ
  | .binary _ left right => ⟨left.scoped_univ, right.scoped_univ⟩
  | .cond condition consequence none => ⟨condition.scoped_univ, Stmt.allScoped_univ consequence⟩
  | .cond condition consequence (some alternative) =>
    ⟨condition.scoped_univ, Stmt.allScoped_univ consequence, Stmt.allScoped_univ alternative⟩
  | .fn _ body => (Stmt.allScoped_univ body).mono Set.subset_union_left
  | .call callee args => ⟨callee.scoped_univ, Expr.allScoped_univ args⟩

theorem Expr.allScoped_univ : ∀ es : List Expr, Expr.AllScoped Set.univ es
  | [] => trivial
  | e :: es => ⟨e.scoped_univ, Expr.allScoped_univ es⟩

theorem Stmt.scoped_univ : ∀ s : Stmt, s.Scoped Set.univ
  | .bind _ value | .ret value | .expr value => value.scoped_univ

theorem Stmt.allScoped_univ : ∀ ss : List Stmt, Stmt.AllScoped Set.univ ss
  | [] => trivial
  | s :: ss => ⟨s.scoped_univ, (Stmt.allScoped_univ ss).mono Set.subset_union_left⟩

end

namespace Environment

theorem sizeOf_lt_of_scope {s : Scope Value} {x : String} {v : Value} (h : s.get? x = some v) :
    sizeOf v < sizeOf s := by
  induction s with
  | nil => simp [Scope.get?] at h
  | cons b bs ih =>
    obtain ⟨y, w⟩ := b
    rw [Scope.get?_cons] at h
    split at h
    · cases h
      simp
      omega
    · have := ih h
      simp
      omega

theorem sizeOf_lt_of_get? {e : Environment Value} {x : String} {v : Value}
    (h : e.get? x = some v) : sizeOf v < sizeOf e := by
  obtain ⟨current, outer⟩ := e
  obtain ⟨s, hs, hv⟩ := List.exists_of_findSome?_eq_some h
  have hscope := sizeOf_lt_of_scope hv
  simp only [Environment.mk.sizeOf_spec]
  have hmem : s = current ∨ s ∈ outer := List.mem_cons.1 hs
  rcases hmem with rfl | hs
  · omega
  · have := List.sizeOf_lt_of_mem hs
    omega

end Environment

theorem Value.Similar.refl : ∀ v : Value, v.Similar v
  | .null => .data nofun
  | .bool _ => .data nofun
  | .int _ => .data nofun
  | .str _ => .data nofun
  | .function _ _ body captured =>
    .function Set.univ ((Stmt.allScoped_univ body).mono Set.subset_union_left) (fun _ _ => rfl)
      fun x _ v w hv hw => by
        obtain rfl : v = w := Option.some.inj (hv.symm.trans hw)
        have := Environment.sizeOf_lt_of_get? hv
        exact Value.Similar.refl v
termination_by v => sizeOf v
decreasing_by
  simp only [Value.function.sizeOf_spec]
  omega

theorem Environment.Agree.refl (G : Set String) (e : Environment Value) : Agree G e e where
  binds _ _ := rfl
  values x _ v w hv hw := by
    obtain rfl : v = w := Option.some.inj (hv.symm.trans hw)
    exact .refl v

theorem Environment.Agree.symm {G : Set String} {e e' : Environment Value} (h : Agree G e e') :
    Agree G e' e where
  binds x hx := (h.binds x hx).symm
  values x hx v w hv hw := (h.values x hx w v hw hv).symm

end Monkey

import Mathlib.Data.List.Count
import Mathlib.Data.List.Perm.Basic
import Monkey.Environment.Shared

/-! # Owners of shared scopes

On a heap that is in order, the number of owners that a scope counts is the
number of environments and scopes that do hold on to it. So a scope that counts
one owner is on the way to the bindings of one environment only, and a change of
it is seen by no other. Every operation keeps the heap in order, and changes what
one environment sees.
-/

namespace Monkey.Heap

variable {α : Type} {h h' : Heap α} {a b p r : Nat} {c : Cell α} {roots : List Nat}

/-! ## Reading a heap after it was written to -/

theorem lt_of_cell? (hc : h.cell? a = some c) : a < h.length := by
  by_contra hlt
  simp [cell?, List.getElem?_eq_none (Nat.le_of_not_lt hlt)] at hc

theorem cell?_set (ha : a < h.length) (x : Option (Cell α)) (b : Nat) :
    cell? (h.set a x) b = if b = a then x else h.cell? b := by
  unfold cell?
  rw [List.getElem?_set]
  by_cases hb : b = a
  · simp [hb, ha]
  · simp [hb, Ne.symm hb]

theorem cell?_modify (h : Heap α) (a : Nat) (f : Cell α → Cell α) (b : Nat) :
    (h.modify a f).cell? b = if b = a then (h.cell? a).map f else h.cell? b := by
  unfold modify
  cases hc : h.cell? a with
  | none => by_cases hb : b = a <;> simp [hb, hc]
  | some c => rw [cell?_set (lt_of_cell? hc)]; rfl

theorem cell?_allocate (h : Heap α) (s : Scope α) (p : Option Nat) (b : Nat) :
    (h.allocate s p).1.cell? b = if b = h.length then some ⟨s, p, 1⟩ else h.cell? b := by
  unfold cell? allocate
  rcases Nat.lt_trichotomy b h.length with hb | rfl | hb
  · simp [List.getElem?_append_left hb, Nat.ne_of_lt hb]
  · simp
  · have hlength : (h ++ [some (⟨s, p, 1⟩ : Cell α)]).length ≤ b := by
      rw [List.length_append]
      exact hb
    rw [List.getElem?_eq_none hlength, List.getElem?_eq_none (Nat.le_of_lt hb),
      if_neg (Nat.ne_of_gt hb)]

/-- How many scopes stand right inside the one at an address. -/
def children (h : Heap α) (a : Nat) : Nat :=
  h.countP fun x => decide (x.bind (·.parent) = some a)

theorem children_set (hc : h.cell? a = some c) (x : Option (Cell α)) (b : Nat) :
    children (h.set a x) b + (if c.parent = some b then 1 else 0) =
      h.children b + if x.bind (·.parent) = some b then 1 else 0 := by
  have ha := lt_of_cell? hc
  have hget : h[a] = some c := by
    simpa [cell?, List.getElem?_eq_getElem ha] using hc
  unfold children
  rw [List.countP_set ha, hget]
  have hpos : c.parent = some b → 0 < h.countP fun x => decide (x.bind (·.parent) = some b) := by
    intro hp
    exact List.countP_pos_iff.2 ⟨some c, hget ▸ List.getElem_mem ha, by simpa using hp⟩
  by_cases hp : c.parent = some b
  · have := hpos hp
    simp only [Option.bind_some, hp, decide_true, if_true, decide_eq_true_eq]
    split <;> omega
  · simp only [Option.bind_some, hp, decide_false, Bool.false_eq_true, if_false,
      decide_eq_true_eq]
    split <;> omega

theorem children_modify {f : Cell α → Cell α} (hf : ∀ c, (f c).parent = c.parent) (a b : Nat) :
    (h.modify a f).children b = h.children b := by
  unfold modify
  cases hc : h.cell? a with
  | none => rfl
  | some c =>
    have hset := children_set hc (some (f c)) b
    rw [Option.bind_some, hf] at hset
    exact Nat.add_right_cancel hset

theorem children_allocate (h : Heap α) (s : Scope α) (p : Option Nat) (b : Nat) :
    (h.allocate s p).1.children b = h.children b + if p = some b then 1 else 0 := by
  simp [children, allocate, List.countP_append, List.countP_cons]

theorem children_pos_of_parent (hc : h.cell? b = some c) (hp : c.parent = some a) :
    0 < h.children a := by
  have hset := children_set hc none a
  rw [if_pos hp, Option.bind_none, if_neg nofun] at hset
  omega

theorem children_release_le (h : Heap α) (a b : Nat) : (h.release a).children b ≤ h.children b := by
  fun_induction release h a with
  | case1 => exact Nat.le_refl _
  | case2 =>
    refine Nat.le_of_eq (children_modify ?_ _ _)
    exact fun _ => rfl
  | case3 h a c hc =>
    have := children_set hc none b
    simp at this
    omega
  | case4 h a c hc _ p _ _ ih =>
    have := children_set hc none b
    simp at this
    omega
  | case5 h a c hc =>
    have := children_set hc none b
    simp at this
    omega

/-! ## What an environment sees -/

/-- What a scope shows, without the number of its owners. -/
def Cell.content (c : Cell α) : Scope α × Option Nat :=
  (c.bindings, c.parent)

/--
An environment sees the same on two heaps that agree on the scopes of a set which its own scopes
do not leave.
-/
theorem scopes_congr {S : Nat → Prop}
    (hS : ∀ b c p, S b → h.cell? b = some c → c.parent = some p → S p)
    (hc : ∀ b, S b → (h'.cell? b).map Cell.content = (h.cell? b).map Cell.content) (ha : S a) :
    h'.scopes a = h.scopes a := by
  induction a using Nat.strongRecOn with
  | ind a ih =>
    have hcontent := hc a ha
    rw [scopes, scopes]
    cases hcell : h.cell? a with
    | none =>
      rw [hcell, Option.map_none, Option.map_eq_none_iff] at hcontent
      rw [hcontent]
    | some c =>
      rw [hcell, Option.map_some] at hcontent
      obtain ⟨c', hc', he⟩ := Option.map_eq_some_iff.1 hcontent
      rw [hc']
      obtain ⟨hbindings, hparent⟩ := Prod.mk.inj he
      simp only [hbindings, hparent]
      cases hp : c.parent with
      | none => rfl
      | some p =>
        simp only
        split
        · next hlt => rw [ih p hlt (hS a c p ha hcell hp)]
        · rfl

theorem scopes_modify_of_content {f : Cell α → Cell α} (hf : ∀ c, (f c).content = c.content)
    (a b : Nat) : (h.modify a f).scopes b = h.scopes b := by
  refine scopes_congr (S := fun _ => True) (fun _ _ _ _ _ _ => trivial) (fun b _ => ?_) trivial
  rw [cell?_modify]
  split
  · next hb =>
    subst hb
    cases h.cell? b <;> simp [hf]
  · rfl

/-- A change of a scope that no other stands in is seen where it is the innermost one only. -/
theorem scopes_eq_of_childless (hchildren : h.children a = 0)
    (hc : ∀ b, b ≠ a → h'.cell? b = h.cell? b) (hb : b ≠ a) : h'.scopes b = h.scopes b := by
  refine scopes_congr (S := (· ≠ a)) ?_ (fun b hb => by rw [hc b hb]) hb
  rintro b c p - hcell hp rfl
  have := children_pos_of_parent hcell hp
  omega

/-! ## Heaps in order -/

/--
Whether a heap is in order where the environments stand at the addresses `roots`: they and the
scopes around other scopes exist, the latter are older, and every scope counts its owners.
-/
structure Owned (h : Heap α) (roots : List Nat) : Prop where
  live : ∀ a ∈ roots, ∃ c, h.cell? a = some c
  parent : ∀ a c p, h.cell? a = some c → c.parent = some p → p < a ∧ ∃ d, h.cell? p = some d
  owners : ∀ a c, h.cell? a = some c → c.owners = roots.count a + h.children a

namespace Owned

theorem perm {roots' : List Nat} (ho : Owned h roots) (hp : roots.Perm roots') :
    Owned h roots' where
  live a ha := ho.live a (hp.mem_iff.2 ha)
  parent := ho.parent
  owners a c hc := by rw [ho.owners a c hc, hp.count_eq]

theorem swap (ho : Owned h (a :: b :: roots)) : Owned h (b :: a :: roots) :=
  ho.perm (.swap b a roots)

theorem scopes_eq (ho : Owned h roots) (hc : h.cell? a = some c) :
    h.scopes a = c.bindings :: c.parent.elim [] h.scopes := by
  rw [scopes, hc]
  cases hp : c.parent with
  | none => simp [hp]
  | some p => simp [hp, (ho.parent a c p hc hp).1]

/-- A scope with a single owner, an environment, is shared with no other. -/
theorem sole (ho : Owned h (a :: roots)) (hc : h.cell? a = some c) (hle : c.owners ≤ 1) :
    a ∉ roots ∧ h.children a = 0 := by
  have hcount := ho.owners a c hc
  rw [List.count_cons_self] at hcount
  exact ⟨List.count_eq_zero.1 (by omega), by omega⟩

theorem modify {f : Cell α → Cell α} {roots' : List Nat} (ho : Owned h roots)
    (hparent : ∀ c, (f c).parent = c.parent) (hlive : ∀ b ∈ roots', ∃ c, h.cell? b = some c)
    (hself : ∀ c, h.cell? a = some c → (f c).owners = roots'.count a + h.children a)
    (hother : ∀ b, b ≠ a → roots'.count b = roots.count b) : Owned (h.modify a f) roots' := by
  have hcell (b : Nat) : (∃ c, (h.modify a f).cell? b = some c) ↔ ∃ c, h.cell? b = some c := by
    rw [cell?_modify]
    split
    · next hb =>
      subst hb
      cases h.cell? b <;> simp
    · rfl
  refine ⟨fun b hb => (hcell b).2 (hlive b hb), fun b c p hc hp => ?_, fun b c hc => ?_⟩
  · rw [hcell p]
    rw [cell?_modify] at hc
    split at hc
    · next hb =>
      subst hb
      obtain ⟨d, hd, rfl⟩ := Option.map_eq_some_iff.1 hc
      exact ho.parent b d p hd (hparent d ▸ hp)
    · exact ho.parent b c p hc hp
  · rw [children_modify hparent]
    rw [cell?_modify] at hc
    split at hc
    · next hb =>
      subst hb
      obtain ⟨d, hd, rfl⟩ := Option.map_eq_some_iff.1 hc
      exact hself d hd
    · next hb => rw [ho.owners b c hc, hother b hb]

theorem retain (ho : Owned h roots) (ha : ∃ c, h.cell? a = some c) :
    Owned (h.retain a) (a :: roots) := by
  refine ho.modify (fun _ => rfl) ?_ (fun c hc => ?_) fun b hb => ?_
  · rintro b (_ | ⟨_, hb⟩)
    · exact ha
    · exact ho.live b hb
  · have hcount := ho.owners a c hc
    change c.owners + 1 = _
    rw [List.count_cons_self]
    omega
  · exact List.count_cons_of_ne (Ne.symm hb)

theorem rebind (ho : Owned h roots) (f : Scope α → Scope α) : Owned (h.rebind a f) roots :=
  ho.modify (fun _ => rfl) ho.live (fun c hc => ho.owners a c hc) fun _ _ => rfl

theorem lt_length (ho : Owned h roots) (ha : a ∈ roots) : a < h.length := by
  obtain ⟨c, hc⟩ := ho.live a ha
  exact lt_of_cell? hc

theorem children_length (ho : Owned h roots) : h.children h.length = 0 := by
  by_contra hne
  obtain ⟨x, hx, hparent⟩ := List.countP_pos_iff.1 (Nat.pos_of_ne_zero hne)
  obtain ⟨i, hi, rfl⟩ := List.getElem_of_mem hx
  obtain ⟨c, hc, hp⟩ := Option.bind_eq_some_iff.1 (of_decide_eq_true hparent)
  have hcell : h.cell? i = some c := by simp [cell?, List.getElem?_eq_getElem hi, hc]
  obtain ⟨d, hd⟩ := (ho.parent i c h.length hcell hp).2
  exact absurd (lt_of_cell? hd) (Nat.lt_irrefl _)

/-- A new scope takes over one owner of the scope around it. -/
theorem allocate {s : Scope α} {p : Option Nat} (ho : Owned h (p.toList ++ roots)) :
    Owned (h.allocate s p).1 (h.length :: roots) := by
  have hfresh (b : Nat) (hb : ∃ c, h.cell? b = some c) : b ≠ h.length := by
    obtain ⟨c, hc⟩ := hb
    exact Nat.ne_of_lt (lt_of_cell? hc)
  have hkeep (b : Nat) (hb : ∃ c, h.cell? b = some c) :
      ∃ c, (h.allocate s p).1.cell? b = some c := by
    rw [cell?_allocate, if_neg (hfresh b hb)]
    exact hb
  have hp (b : Nat) (hb : p = some b) : ∃ c, h.cell? b = some c :=
    ho.live b (by simp [hb])
  refine ⟨?_, fun b c q hc hq => ?_, fun b c hc => ?_⟩
  · rintro b (_ | ⟨_, hb⟩)
    · exact ⟨⟨s, p, 1⟩, by simp [cell?_allocate]⟩
    · exact hkeep b (ho.live b (List.mem_append_right _ hb))
  · rw [cell?_allocate] at hc
    split at hc
    · next hb =>
      cases hc
      obtain ⟨d, hd⟩ := hp q hq
      exact ⟨hb ▸ lt_of_cell? hd, hkeep q ⟨d, hd⟩⟩
    · obtain ⟨hlt, hd⟩ := ho.parent b c q hc hq
      exact ⟨hlt, hkeep q hd⟩
  · rw [children_allocate]
    rw [cell?_allocate] at hc
    split at hc
    · next hb =>
      cases hc
      have hroots : roots.count b = 0 := List.count_eq_zero.2 fun hm =>
        hfresh b (ho.live b (List.mem_append_right _ hm)) hb
      have hchildren : h.children b = 0 := hb ▸ ho.children_length
      have hparent : p ≠ some b := fun he => hfresh b (hp b he) hb
      subst hb
      simp [hroots, hchildren, hparent]
    · next hb =>
      have hcount := ho.owners b c hc
      rw [List.count_append] at hcount
      rw [List.count_cons_of_ne (Ne.symm hb), hcount]
      cases p with
      | none => simp
      | some q =>
        by_cases hq : q = b
        · simp [hq]
          omega
        · simp [hq]

/-- Freeing a scope without other owners hands its owner of the scope around it back. -/
theorem free (ho : Owned h (a :: roots)) (hc : h.cell? a = some c) (hle : c.owners ≤ 1) :
    Owned (h.set a none) (c.parent.toList ++ roots) := by
  obtain ⟨hroots, hchildren⟩ := ho.sole hc hle
  have hcell (b : Nat) : cell? (h.set a none) b = if b = a then none else h.cell? b :=
    cell?_set (lt_of_cell? hc) none b
  have hkeep (b : Nat) (hb : b ≠ a) (hd : ∃ d, h.cell? b = some d) :
      ∃ d, cell? (h.set a none) b = some d := by
    rw [hcell, if_neg hb]
    exact hd
  refine ⟨fun b hb => ?_, fun b d p hd hp => ?_, fun b d hd => ?_⟩
  · rcases List.mem_append.1 hb with hb | hb
    · obtain ⟨hlt, hd⟩ := ho.parent a c b hc (Option.mem_toList.1 hb)
      exact hkeep b (Nat.ne_of_lt hlt) hd
    · exact hkeep b (fun he => hroots (he ▸ hb)) (ho.live b (List.mem_cons_of_mem _ hb))
  · rw [hcell] at hd
    split at hd
    · cases hd
    · obtain ⟨hlt, hex⟩ := ho.parent b d p hd hp
      refine ⟨hlt, hkeep p ?_ hex⟩
      rintro rfl
      have := children_pos_of_parent hd hp
      omega
  · rw [hcell] at hd
    split at hd
    · cases hd
    · next hb =>
      have hcount := ho.owners b d hd
      have hset := children_set hc none b
      rw [List.count_cons_of_ne (Ne.symm hb)] at hcount
      rw [List.count_append, hcount]
      cases hp : c.parent with
      | none => simp [hp] at hset ⊢; omega
      | some p =>
        by_cases hq : p = b
        · simp [hp, hq] at hset ⊢
          omega
        · simp [hp, hq] at hset ⊢
          omega

/-- No environment but the one that held on to it sees that a scope is freed. -/
theorem scopes_free (ho : Owned h (a :: roots)) (hc : h.cell? a = some c) (hle : c.owners ≤ 1)
    (hr : r ∈ roots) : scopes (h.set a none) r = h.scopes r := by
  obtain ⟨hroots, hchildren⟩ := ho.sole hc hle
  refine scopes_eq_of_childless hchildren (fun b hb => ?_) fun he => hroots (he ▸ hr)
  rw [cell?_set (lt_of_cell? hc), if_neg hb]

/-- Giving up an owner keeps the heap in order, and no other environment sees it. -/
theorem release (ho : Owned h (a :: roots)) :
    Owned (h.release a) roots ∧ ∀ r ∈ roots, (h.release a).scopes r = h.scopes r := by
  fun_induction Heap.release h a with
  | case1 h a hnone =>
    obtain ⟨c, hc⟩ := ho.live a List.mem_cons_self
    exact absurd hc (by simp [hnone])
  | case2 h a c hc hlt =>
    constructor
    · refine ho.modify (fun _ => rfl) ?_ ?_ ?_
      · exact fun b hb => ho.live b (List.mem_cons_of_mem _ hb)
      · intro d hd
        have hcount := ho.owners a d hd
        rw [List.count_cons_self] at hcount
        change d.owners - 1 = _
        omega
      · exact fun b hb => (List.count_cons_of_ne (Ne.symm hb)).symm
    · intro r _
      refine scopes_modify_of_content ?_ a r
      exact fun _ => rfl
  | case3 h a c hc hle hp =>
    have hfree := ho.free hc (Nat.le_of_not_lt hle)
    rw [hp] at hfree
    exact ⟨hfree, fun r hr => ho.scopes_free hc (Nat.le_of_not_lt hle) hr⟩
  | case4 h a c hc hle p hp hlt ih =>
    have hfree := ho.free hc (Nat.le_of_not_lt hle)
    rw [hp] at hfree
    obtain ⟨howned, hscopes⟩ := ih hfree
    refine ⟨howned, fun r hr => ?_⟩
    rw [hscopes r hr, ho.scopes_free hc (Nat.le_of_not_lt hle) hr]
  | case5 h a c hc hle p hp hnlt => exact absurd (ho.parent a c p hc hp).1 hnlt

end Owned

/-! ## What an operation on an environment does -/

/--
Whether an operation beside the environments `roots` ends in order, with an environment that sees
`ss`, and the others see what they saw.
-/
structure Becomes (h : Heap α) (roots : List Nat) (result : Heap α × Nat)
    (ss : List (Scope α)) : Prop where
  owned : Owned result.1 (result.2 :: roots)
  scopes : result.1.scopes result.2 = ss
  others : ∀ r ∈ roots, result.1.scopes r = h.scopes r

theorem scopes_retain (h : Heap α) (a b : Nat) : (h.retain a).scopes b = h.scopes b := by
  refine scopes_modify_of_content ?_ a b
  exact fun _ => rfl

theorem scopes_allocate_of_lt {s : Scope α} {p : Option Nat} (ho : Owned h roots)
    (hb : b < h.length) : (h.allocate s p).1.scopes b = h.scopes b := by
  refine scopes_congr (S := (· < h.length)) ?_ (fun b hb => ?_) hb
  · intro b c p hb hc hp
    exact Nat.lt_trans (ho.parent b c p hc hp).1 hb
  · rw [cell?_allocate, if_neg (Nat.ne_of_lt hb)]

namespace Owned

theorem becomes_allocate {s : Scope α} {p : Option Nat} (ho : Owned h (p.toList ++ roots)) :
    Becomes h roots (h.allocate s p) (s :: p.elim [] h.scopes) := by
  refine ⟨ho.allocate, ?_, fun r hr => ?_⟩
  · have hself : (h.allocate s p).1.cell? h.length = some ⟨s, p, 1⟩ := by simp [cell?_allocate]
    change (h.allocate s p).1.scopes h.length = _
    rw [ho.allocate.scopes_eq hself]
    cases p with
    | none => rfl
    | some p =>
      simp only [Option.elim_some]
      rw [scopes_allocate_of_lt ho (ho.lt_length (by simp))]
  · exact scopes_allocate_of_lt ho (ho.lt_length (List.mem_append_right _ hr))

end Owned

namespace Becomes

variable {result : Heap α × Nat} {s : Scope α} {ss : List (Scope α)}

theorem trans {result' : Heap α × Nat} {ss' : List (Scope α)} (hb : Becomes h roots result ss)
    (hb' : Becomes result.1 roots result' ss') : Becomes h roots result' ss' :=
  ⟨hb'.owned, hb'.scopes, fun r hr => (hb'.others r hr).trans (hb.others r hr)⟩

theorem perm {roots' : List Nat} (hb : Becomes h roots result ss) (hp : roots.Perm roots') :
    Becomes h roots' result ss :=
  ⟨hb.owned.perm (hp.cons _), hb.scopes, fun r hr => hb.others r (hp.mem_iff.2 hr)⟩

theorem of_retain (hb : Becomes (h.retain a) roots result ss) : Becomes h roots result ss :=
  ⟨hb.owned, hb.scopes, fun r hr => (hb.others r hr).trans (scopes_retain h a r)⟩

/-- One of the other environments is given up. -/
theorem release (hb : Becomes h (a :: roots) result ss) :
    Becomes h roots (result.1.release a, result.2) ss := by
  obtain ⟨howned, hscopes⟩ := hb.owned.swap.release
  refine ⟨howned, ?_, fun r hr => ?_⟩
  · rw [hscopes _ List.mem_cons_self, hb.scopes]
  · rw [hscopes r (List.mem_cons_of_mem _ hr), hb.others r (List.mem_cons_of_mem _ hr)]

/-- A scope that is shared with no other environment is changed in place. -/
theorem rebind (hb : Becomes h roots result (s :: ss)) (hroots : result.2 ∉ roots)
    (hchildren : result.1.children result.2 = 0) (f : Scope α → Scope α) :
    Becomes h roots (result.1.rebind result.2 f, result.2) (f s :: ss) := by
  obtain ⟨h', b⟩ := result
  have hother (r : Nat) (hr : r ≠ b) : (h'.rebind b f).scopes r = h'.scopes r := by
    refine scopes_eq_of_childless hchildren (fun x hx => ?_) hr
    rw [Heap.rebind, cell?_modify, if_neg hx]
  refine ⟨hb.owned.rebind f, ?_, fun r hr => ?_⟩
  · obtain ⟨c, hc⟩ := hb.owned.live b List.mem_cons_self
    have hsees := hb.owned.scopes_eq hc
    rw [hb.scopes] at hsees
    obtain ⟨rfl, rfl⟩ := List.cons.inj hsees
    have hc' : (h'.rebind b f).cell? b = some { c with bindings := f c.bindings } := by
      rw [Heap.rebind, cell?_modify, if_pos rfl, hc]
      rfl
    rw [(hb.owned.rebind f).scopes_eq hc']
    cases hp : c.parent with
    | none => simp
    | some p =>
      have hlt := (hb.owned.parent b c p hc hp).1
      simp [hother p (Nat.ne_of_lt hlt)]
  · rw [hother r fun he => hroots (he ▸ hr), hb.others r hr]

end Becomes

namespace Owned

theorem becomes_self (ho : Owned h (a :: roots)) : Becomes h roots (h, a) (h.scopes a) :=
  ⟨ho, rfl, fun _ _ => rfl⟩

theorem becomes_retain (ho : Owned h (a :: roots)) :
    Becomes h (a :: roots) (h.retain a, a) (h.scopes a) where
  owned := ho.retain (ho.live a List.mem_cons_self)
  scopes := scopes_retain h a a
  others r _ := scopes_retain h a r

theorem becomes_enclosed (ho : Owned h (a :: roots)) :
    Becomes h (a :: roots) (h.enclosed a) ([] :: h.scopes a) := by
  have hb := (ho.retain (ho.live a List.mem_cons_self)).becomes_allocate (s := []) (p := some a)
  rw [Option.elim_some, scopes_retain] at hb
  exact hb.of_retain

/-- An environment that shares its innermost scope gets a copy of it for itself. -/
theorem becomes_makeUnique (ho : Owned h (a :: roots)) :
    Becomes h roots (h.makeUnique a) (h.scopes a) ∧ (h.makeUnique a).2 ∉ roots ∧
      (h.makeUnique a).1.children (h.makeUnique a).2 = 0 := by
  obtain ⟨c, hc⟩ := ho.live a List.mem_cons_self
  unfold makeUnique
  rw [hc]
  simp only
  split
  · next hone =>
    exact ⟨ho.becomes_self, ho.sole hc (Nat.le_of_eq hone)⟩
  · -- The copy is made beside the environment, which then gives up the scope that was copied.
    obtain ⟨h₁, hh₁⟩ : ∃ h₁, c.parent.elim h h.retain = h₁ := ⟨_, rfl⟩
    have hretained : Owned h₁ (c.parent.toList ++ a :: roots) ∧ h₁.scopes = h.scopes := by
      cases hp : c.parent with
      | none =>
        rw [hp] at hh₁
        subst hh₁
        exact ⟨ho, rfl⟩
      | some p =>
        rw [hp] at hh₁
        subst hh₁
        exact ⟨ho.retain (ho.parent a c p hc hp).2, funext (scopes_retain h p)⟩
    obtain ⟨howned, hscopes⟩ := hretained
    have hcopy : Becomes h₁ roots ((h₁.allocate c.bindings c.parent).1.release a, h₁.length)
        (c.bindings :: c.parent.elim [] h₁.scopes) := howned.becomes_allocate.release
    rw [hscopes, ← ho.scopes_eq hc] at hcopy
    have hparent : c.parent ≠ some h₁.length := fun hp =>
      absurd (howned.lt_length (by simp [hp])) (Nat.lt_irrefl _)
    have hchildren := children_release_le (h₁.allocate c.bindings c.parent).1 a h₁.length
    rw [children_allocate, howned.children_length, if_neg hparent] at hchildren
    rw [hh₁]
    refine ⟨⟨hcopy.owned, hcopy.scopes, fun r hr => ?_⟩, fun hm => ?_, Nat.le_zero.1 hchildren⟩
    · rw [hcopy.others r hr, hscopes]
    · have hold := howned.lt_length (List.mem_append_right _ (List.mem_cons_of_mem a hm))
      exact absurd hold (Nat.lt_irrefl _)

/-- Taking the bindings of a scope is seen by no other environment. -/
theorem take (ho : Owned h (a :: roots)) :
    (h.take a).1 = h.bindings a ∧ Owned (h.take a).2 roots ∧
      ∀ r ∈ roots, (h.take a).2.scopes r = h.scopes r := by
  obtain ⟨c, hc⟩ := ho.live a List.mem_cons_self
  have hbindings : h.bindings a = c.bindings := by simp [bindings, hc]
  have hsees := ho.scopes_eq hc
  unfold Heap.take
  rw [hc, hbindings]
  simp only
  split
  · next hone =>
    obtain ⟨hroots, hchildren⟩ := ho.sole hc (Nat.le_of_eq hone)
    have hself : Becomes h roots (h, a) (c.bindings :: c.parent.elim [] h.scopes) :=
      hsees ▸ ho.becomes_self
    have hempty := hself.rebind hroots hchildren fun _ => []
    obtain ⟨howned, hscopes⟩ := hempty.owned.release
    exact ⟨rfl, howned, fun r hr => (hscopes r hr).trans (hempty.others r hr)⟩
  · exact ⟨rfl, ho.release⟩

end Owned

/-! ## The operations on environments -/

variable {e : Environment α}

/-- How an environment stands on a heap: alone, or inside another one. -/
theorem Owned.cases_of_scopes (ho : Owned h (a :: roots)) (he : h.scopes a = e.scopes) :
    h.bindings a = e.current ∧
      ((h.parent? a = none ∧ e.outer = []) ∨ ∃ p s ss, h.parent? a = some p ∧
        (∃ d, h.cell? p = some d) ∧ e.outer = s :: ss ∧ h.scopes p = s :: ss) := by
  obtain ⟨c, hc⟩ := ho.live a List.mem_cons_self
  rw [ho.scopes_eq hc] at he
  obtain ⟨hcurrent, houter⟩ := List.cons.inj he
  refine ⟨by simp [bindings, hc, hcurrent], ?_⟩
  cases hp : c.parent with
  | none => exact .inl ⟨by simp [parent?, hc, hp], by rw [← houter, hp]; rfl⟩
  | some p =>
    obtain ⟨-, d, hd⟩ := ho.parent a c p hc hp
    have hsees := ho.scopes_eq hd
    refine .inr ⟨p, _, _, by simp [parent?, hc, hp], ⟨d, hd⟩, ?_, hsees⟩
    rw [← houter, hp, Option.elim_some, hsees]

theorem becomes_enter (ho : Owned h (a :: roots)) (he : h.scopes a = e.scopes) :
    Becomes h roots (h.enter a) e.enter.scopes := by
  rw [Environment.scopes_enter, ← he]
  exact ho.becomes_enclosed.release

theorem becomes_clear (ho : Owned h (a :: roots)) :
    Becomes h roots ((h.allocate [] none).1.release a, h.length) Environment.empty.scopes :=
  (ho.becomes_allocate (s := []) (p := none)).release

/-- An environment moves on to another scope, and gives up the one it had. -/
theorem becomes_moved (ho : Owned h (a :: roots)) (hp : ∃ d, h.cell? p = some d) :
    Becomes h roots ((h.retain p).release a, p) (h.scopes p) := by
  have hmoved := (ho.retain hp).becomes_self.release
  rw [scopes_retain] at hmoved
  exact hmoved.of_retain

theorem becomes_exit (ho : Owned h (a :: roots)) (he : h.scopes a = e.scopes) :
    Becomes h roots (h.exit a) e.exit.scopes := by
  obtain ⟨-, ⟨hp, houter⟩ | ⟨p, s, ss, hp, hlive, houter, hsees⟩⟩ := ho.cases_of_scopes he
  · simp only [exit, hp, Environment.exit, houter]
    exact he ▸ ho.becomes_self
  · simp only [exit, hp, Environment.exit, houter, Environment.scopes]
    exact hsees ▸ becomes_moved ho hlive

/-- A binding is refused on the heap if it is refused in the environment, and made otherwise. -/
theorem define_cases (ho : Owned h (a :: roots)) (he : h.scopes a = e.scopes) (name : String)
    (v : α) :
    (h.define a name v = .error (.duplicate name) ∧ e.define name v = .error (.duplicate name)) ∨
      ∃ result e', h.define a name v = .ok result ∧ e.define name v = .ok e' ∧
        Becomes h roots result e'.scopes := by
  obtain ⟨hcurrent, -⟩ := ho.cases_of_scopes he
  unfold define Environment.define
  rw [hcurrent]
  split
  · exact .inl ⟨rfl, rfl⟩
  · obtain ⟨hunique, hroots, hchildren⟩ := ho.becomes_makeUnique
    rw [he] at hunique
    exact .inr ⟨_, _, rfl, rfl, hunique.rebind hroots hchildren _⟩

theorem bindings_retain (h : Heap α) (p a : Nat) : (h.retain p).bindings a = h.bindings a := by
  unfold bindings retain
  rw [cell?_modify]
  split
  · next ha =>
    subst ha
    cases h.cell? a <;> rfl
  · rfl

theorem becomes_commit (ho : Owned h (a :: roots)) (he : h.scopes a = e.scopes) :
    Becomes h roots (h.commit a) e.commit.scopes := by
  obtain ⟨hcurrent, ⟨hp, houter⟩ | ⟨p, s, ss, hp, hlive, houter, hsees⟩⟩ := ho.cases_of_scopes he
  · simp only [commit, hp, Environment.commit, houter]
    exact he ▸ ho.becomes_self
  · obtain ⟨hnew, howned, hscopes⟩ := (ho.retain hlive).swap.take
    rw [bindings_retain, hcurrent] at hnew
    have hmoved : Becomes h roots (((h.retain p).take a).2, p) (s :: ss) := by
      have hothers (r : Nat) (hr : r ∈ roots) := hscopes r (List.mem_cons_of_mem p hr)
      refine Becomes.of_retain (a := p) ⟨howned, ?_, hothers⟩
      rw [hscopes p List.mem_cons_self, scopes_retain, hsees]
    simp only [commit, hp, Environment.commit, houter, hnew]
    split
    · next hempty =>
      rw [List.isEmpty_iff.1 hempty, Scope.override_nil]
      exact hmoved
    · obtain ⟨hunique, hroots, hchildren⟩ := howned.becomes_makeUnique
      rw [hmoved.scopes] at hunique
      exact hmoved.trans (hunique.rebind hroots hchildren _)

/-! ## Steps -/

/-- A step on the heap gets the reply it gets in the environment, and does there what it does. -/
theorem becomes_perform (ho : Owned h (a :: roots)) (he : h.scopes a = e.scopes)
    (step : Environment.Step α) :
    (h.perform a step).1 = (e.perform step).1 ∧
      Becomes h roots (h.perform a step).2 (e.perform step).2.scopes := by
  have hself : Becomes h roots (h, a) e.scopes := he ▸ ho.becomes_self
  have hget (name : String) : h.get? a name = e.get? name := by
    rw [get?, he]
    rfl
  cases step with
  | define name v =>
    obtain ⟨hd, he'⟩ | ⟨result, e', hd, he', hb⟩ := define_cases ho he name v
    · simp only [perform, Environment.perform, hd, he']
      exact ⟨trivial, hself⟩
    · simp only [perform, Environment.perform, hd, he']
      exact ⟨trivial, hb⟩
  | get name =>
    simp only [perform, Environment.perform, Environment.get, hget]
    cases e.get? name with
    | none => exact ⟨rfl, hself⟩
    | some v => exact ⟨rfl, hself⟩
  | binds name =>
    simp only [perform, Environment.perform, Environment.binds, hget]
    exact ⟨trivial, hself⟩
  | enter => exact ⟨rfl, becomes_enter ho he⟩
  | exit => exact ⟨rfl, becomes_exit ho he⟩
  | commit => exact ⟨rfl, becomes_commit ho he⟩
  | clear => exact ⟨rfl, becomes_clear ho⟩
  | snapshot target => exact ⟨rfl, hself⟩
  | enclosed target => exact ⟨rfl, hself⟩

/-- A step stores a copy on the heap if it does so with the environment, beside the original. -/
theorem copy?_cases (ho : Owned h (a :: roots)) (he : h.scopes a = e.scopes)
    (step : Environment.Step α) :
    (h.copy? a step = none ∧ e.copy? step = none) ∨
      ∃ target result copy, h.copy? a step = some (target, result) ∧
        e.copy? step = some (target, copy) ∧ Becomes h (a :: roots) result copy.scopes := by
  cases step with
  | snapshot target =>
    have hb := ho.becomes_retain
    rw [he] at hb
    exact .inr ⟨target, _, e, rfl, rfl, hb⟩
  | enclosed target =>
    have hb := ho.becomes_enclosed
    rw [he, ← Environment.scopes_enter] at hb
    exact .inr ⟨target, _, e.enter, rfl, rfl, hb⟩
  | _ => exact .inl ⟨rfl, rfl⟩

end Monkey.Heap

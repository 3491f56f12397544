import Mathlib.Data.List.Nodup
import Monkey.Json.Basic

/-! # Changes to an encoding

An encoding can be written in other ways: with the members of its objects in another
order, with members in its records that nobody asks for, and without the alternatives that
are null. It is damaged where any other member is lost. What a reader finds under a name
that was written follows from these changes alone.
-/

namespace Monkey.Json

/-- The names of the members of each record, as they are written. -/
def records : List (List String) :=
  [["statements"], ["name", "value"], ["operator", "operand"], ["left", "operator", "right"],
    ["condition", "consequence", "alternative"], ["parameters", "body"],
    ["function", "arguments"], ["kind", "literal", "line", "column"]]

mutual

/-- Whether an encoding became another one by such changes, and whether something was lost. -/
inductive Changed : Bool → Json → Json → Prop
  | same (j : Json) : Changed false j j
  | arr {lost : Bool} {items items' : List Json} : ItemsChanged lost items items' →
      Changed lost (.arr items) (.arr items')
  | obj {lost : Bool} {members kept added members' : List (String × Json)} :
      MembersChanged lost members kept → (kept ++ added).Perm members' →
      (∀ m ∈ added, m.1 ∉ members.map Prod.fst) →
      (added ≠ [] → members.map Prod.fst ∈ records) →
      Changed lost (.obj members) (.obj members')

/-- Whether each of several encodings became another one. -/
inductive ItemsChanged : Bool → List Json → List Json → Prop
  | nil : ItemsChanged false [] []
  | cons {lost lost' : Bool} {j j' : Json} {items items' : List Json} : Changed lost j j' →
      ItemsChanged lost' items items' → ItemsChanged (lost || lost') (j :: items) (j' :: items')

/-- Whether members of an object became others, in the order in which they were. -/
inductive MembersChanged : Bool → List (String × Json) → List (String × Json) → Prop
  | nil : MembersChanged false [] []
  | kept {lost lost' : Bool} {name : String} {v v' : Json} {ms ms' : List (String × Json)} :
      Changed lost v v' → MembersChanged lost' ms ms' →
      MembersChanged (lost || lost') ((name, v) :: ms) ((name, v') :: ms')
  | unset {lost : Bool} {ms ms' : List (String × Json)} : MembersChanged lost ms ms' →
      MembersChanged lost (("alternative", .null) :: ms) ms'
  | lost {lost : Bool} {name : String} {v : Json} {ms ms' : List (String × Json)} :
      name ≠ "alternative" → MembersChanged lost ms ms' →
      MembersChanged true ((name, v) :: ms) ms'

end

theorem ItemsChanged.same (items : List Json) : ItemsChanged false items items := by
  induction items with
  | nil => exact .nil
  | cons j items ih => exact .cons (.same j) ih

theorem MembersChanged.same (ms : List (String × Json)) : MembersChanged false ms ms := by
  induction ms with
  | nil => exact .nil
  | cons m ms ih => exact .kept (.same m.2) ih

/-- What is found under a name where `v` was written, and whether something was lost of it. -/
inductive Found : Bool → String → Json → Option Json → Prop
  | kept {lost : Bool} {name : String} {v v' : Json} : Changed lost v v' →
      Found lost name v (some v')
  | unset : Found false "alternative" .null none
  | lost {name : String} {v : Json} : name ≠ "alternative" → Found true name v none

/-- What is found in `l` of members that were written, and whether something was lost of any. -/
inductive AllFound (l : List (String × Json)) : Bool → List (String × Json) → Prop
  | nil : AllFound l false []
  | cons {lost lost' : Bool} {name : String} {v : Json} {ms : List (String × Json)} :
      Found lost name v (l.lookup name) → AllFound l lost' ms →
      AllFound l (lost || lost') ((name, v) :: ms)

namespace MembersChanged

variable {lost : Bool} {ms kept : List (String × Json)}

theorem sublist (h : MembersChanged lost ms kept) :
    (kept.map Prod.fst).Sublist (ms.map Prod.fst) := by
  induction ms generalizing lost kept with
  | nil =>
    cases h
    exact .slnil
  | cons m ms ih =>
    cases h with
    | kept _ hms => exact (ih hms).cons_cons _
    | unset hms => exact (ih hms).cons _
    | lost _ hms => exact (ih hms).cons _

/-- A name that was not written is not found either. -/
theorem lookup_eq_none {name : String} (h : MembersChanged lost ms kept)
    (hname : name ∉ ms.map Prod.fst) : kept.lookup name = none := by
  rw [List.lookup_eq_none_iff]
  intro m hm
  have hmem : m.1 ∈ ms.map Prod.fst := h.sublist.subset (List.mem_map_of_mem hm)
  exact bne_iff_ne.2 fun he => hname (he ▸ hmem)

/-- In a list that agrees with the members that were kept, each member is found or missed. -/
theorem allFound (h : MembersChanged lost ms kept) (hnames : (ms.map Prod.fst).Nodup)
    {l : List (String × Json)} (hl : ∀ x ∈ ms.map Prod.fst, l.lookup x = kept.lookup x) :
    AllFound l lost ms := by
  induction ms generalizing lost kept with
  | nil =>
    cases h
    exact .nil
  | cons m ms ih =>
    obtain ⟨name, v⟩ := m
    rw [List.map_cons, List.nodup_cons] at hnames
    obtain ⟨hname, hnames⟩ := hnames
    have hhead := hl name List.mem_cons_self
    have hrest (x : String) (hx : x ∈ ms.map Prod.fst) := hl x (List.mem_cons_of_mem _ hx)
    cases h with
    | kept hv hms =>
      rw [List.lookup_cons_self] at hhead
      refine .cons (hhead ▸ .kept hv) (ih hms hnames fun x hx => ?_)
      have hne : x ≠ name := fun he => hname (he ▸ hx)
      rw [hrest x hx, List.lookup_cons, beq_false_of_ne hne]
    | unset hms =>
      rw [hms.lookup_eq_none hname] at hhead
      have hfound : Found false "alternative" .null (l.lookup "alternative") := hhead ▸ .unset
      exact AllFound.cons hfound (ih hms hnames hrest)
    | lost hne hms =>
      rw [hms.lookup_eq_none hname] at hhead
      have hfound : Found true name v (l.lookup name) := hhead ▸ .lost hne
      exact AllFound.cons hfound (ih hms hnames hrest)

end MembersChanged

/-- A name that only one member has is found wherever that member is. -/
theorem lookup_eq_of_mem {l : List (String × Json)} {name : String} {v : Json}
    (hmem : (name, v) ∈ l) (hunique : ∀ w, (name, w) ∈ l → w = v) : l.lookup name = some v := by
  cases h : l.lookup name with
  | none => exact absurd (List.lookup_eq_none_iff.1 h _ hmem) (by simp)
  | some w =>
    obtain ⟨before, after, rfl, -⟩ := List.lookup_eq_some_iff.1 h
    rw [hunique w (by simp)]

/-- Neither the order of members nor members of other names make a difference to what is found. -/
theorem lookup_of_perm {kept added l : List (String × Json)} (h : (kept ++ added).Perm l)
    (hkept : (kept.map Prod.fst).Nodup) {name : String} (hname : ∀ m ∈ added, m.1 ≠ name) :
    l.lookup name = kept.lookup name := by
  cases hv : kept.lookup name with
  | none =>
    rw [List.lookup_eq_none_iff] at hv ⊢
    intro m hm
    rcases List.mem_append.1 (h.mem_iff.2 hm) with hm | hm
    · exact hv m hm
    · exact bne_iff_ne.2 (hname m hm).symm
  | some v =>
    obtain ⟨before, after, hsplit, -⟩ := List.lookup_eq_some_iff.1 hv
    have hmem : (name, v) ∈ kept := by simp [hsplit]
    refine lookup_eq_of_mem (h.mem_iff.1 (List.mem_append_left _ hmem)) fun w hw => ?_
    rcases List.mem_append.1 (h.mem_iff.2 hw) with hw | hw
    · exact congrArg Prod.snd (List.inj_on_of_nodup_map hkept hw hmem rfl)
    · exact absurd rfl (hname _ hw)

namespace Changed

variable {lost : Bool} {j : Json}

/-- Objects stay objects, and each member that was written is found or missed on its own. -/
theorem members {ms : List (String × Json)} (h : Changed lost (.obj ms) j)
    (hnames : (ms.map Prod.fst).Nodup) : ∃ ms', j = .obj ms' ∧ AllFound ms' lost ms := by
  cases h with
  | same => exact ⟨ms, rfl, (MembersChanged.same ms).allFound hnames fun _ _ => rfl⟩
  | @obj _ _ kept added ms' hms hperm hadded _ =>
    have hkept : (kept.map Prod.fst).Nodup := hms.sublist.nodup hnames
    refine ⟨ms', rfl, hms.allFound hnames fun x hx => ?_⟩
    exact lookup_of_perm hperm hkept fun m hm he => hadded m hm (he ▸ hx)

/-- A variant keeps its name, or it is lost as a whole. -/
theorem variant {tag : String} {content : Json} (h : Changed lost (.obj [(tag, content)]) j)
    (htag : [tag] ∉ records) (hne : tag ≠ "alternative") :
    (lost = true ∧ j = .obj []) ∨
      ∃ content', j = .obj [(tag, content')] ∧ Changed lost content content' := by
  cases h with
  | same => exact .inr ⟨content, rfl, .same content⟩
  | @obj _ _ kept added ms' hms hperm hadded hrecord =>
    have hnone : added = [] := by
      by_contra hsome
      exact htag (hrecord hsome)
    subst hnone
    rw [List.append_nil] at hperm
    cases hms with
    | kept hv hnil =>
      cases hnil
      rw [List.singleton_perm] at hperm
      rw [Bool.or_false]
      exact .inr ⟨_, congrArg Json.obj hperm.symm, hv⟩
    | unset => exact absurd rfl hne
    | lost _ hnil =>
      cases hnil
      rw [List.nil_perm] at hperm
      exact .inl ⟨rfl, congrArg Json.obj hperm⟩

end Changed

end Monkey.Json

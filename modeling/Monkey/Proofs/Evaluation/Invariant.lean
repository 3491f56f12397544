import Monkey.Proofs.Evaluation.Frame
import Monkey.Proofs.Evaluation.Operators

/-! # Invariants of values

Some properties of values hold of all data, and of a function if they hold of
every value that its environment shows. An evaluation upholds such a property
if it starts from values that have it and hands on no others. A property of the
faults that may come up goes along.
-/

namespace Monkey

/-- Whether every value that an environment shows has a property. -/
def Environment.Every (P : Value → Prop) (e : Environment Value) : Prop :=
  ∀ x v, e.get? x = some v → P v

namespace Environment.Every

variable {P : Value → Prop} {e e' : Environment Value}

theorem empty : Every P .empty := by
  intro x v h
  simp [Environment.empty, Environment.get?_mk, Scope.get?] at h

theorem enter (h : e.Every P) : e.enter.Every P :=
  fun x v hv => h x v (by rwa [Environment.get?_enter] at hv)

theorem commit (h : e.Every P) : e.commit.Every P :=
  fun x v hv => h x v (by rwa [Environment.get?_commit] at hv)

theorem define {name : String} {v : Value} (h : e.Every P) (hv : P v)
    (he : e.define name v = .ok e') : e'.Every P := by
  intro x w hw
  rw [Environment.get?_define he] at hw
  split at hw
  · cases hw
    exact hv
  · exact h x w hw

theorem defineAll {bs : List (String × Value)} (h : e.Every P) (hbs : ∀ b ∈ bs, P b.2)
    (he : e.defineAll bs = .ok e') : e'.Every P := by
  induction bs generalizing e with
  | nil =>
    cases he
    exact h
  | cons b bs ih =>
    obtain ⟨name, v⟩ := b
    obtain ⟨e₁, hd, hrest⟩ := Environment.defineAll_cons_eq_ok_iff.1 he
    exact ih (h.define (hbs _ List.mem_cons_self) hd)
      (fun b hb => hbs b (List.mem_cons_of_mem _ hb)) hrest

end Environment.Every

namespace Eval

variable {α β : Type} {P : Value → Prop} {F : Fault → Prop} {env : Environment Value}

/-- Whether an outcome hands on values with the property `P` only, and no fault but those of `F`. -/
def Upheld (P : Value → Prop) (F : Fault → Prop) (Good : α → Prop) : Except Abrupt α → Prop
  | .ok a => Good a
  | .error (.returned v) => P v
  | .error (.fault e) => F e

/-- For an abrupt end it makes no difference what counts as a good result. -/
theorem Upheld.error {Good : α → Prop} {Good' : β → Prop} {a : Abrupt}
    (h : Upheld P F Good (.error a)) : Upheld P F Good' (.error a) := by
  cases a <;> exact h

/-- Whether `P` and `F` are upheld by every outcome of an evaluation in the environment `env`. -/
def Upholds (P : Value → Prop) (F : Fault → Prop) (x : Eval α) (env : Environment Value)
    (Good : α → Prop) : Prop :=
  ∀ s, s.env = env → Ensures x s fun r _ => Upheld P F Good r

namespace Upholds

variable {x : Eval α} {f : α → Eval β} {Good : α → Prop} {Good' : β → Prop}

theorem tooDeep : Upholds P F (tooDeep : Eval α) env Good := fun _ _ => .tooDeep

theorem pure {a : α} (h : Good a) : Upholds P F (Pure.pure a) env Good := fun _ _ => .pure h

theorem fail {e : Fault} (h : F e) : Upholds P F (fail e : Eval α) env Good :=
  fun _ _ => .fail h

theorem bind (hframe : Frames x) (hx : Upholds P F x env Good)
    (hf : ∀ a, Good a → Upholds P F (f a) env Good') : Upholds P F (x >>= f) env Good' := by
  intro s hs
  refine ((hframe s).and (hx s hs)).bind ?_ ?_
  · rintro a t ⟨ht, ha⟩
    exact hf a ha t (ht.trans hs)
  · rintro (v | e) t ⟨-, h⟩
    · exact h
    · exact h

theorem ofOperator {r : Except Fault Value} (hP : ∀ v : Value, v.IsData → P v)
    (hF : ∀ e : Fault, e.OfOperator → F e) (h : IsOperatorResult r) :
    Upholds P F (ofExcept r) env P := by
  refine fun _ _ => .ofExcept ?_
  cases r with
  | ok v => exact hP v h
  | error e => exact hF e h

theorem lookup (henv : env.Every P) {name : String} (h : F (.undefined name)) :
    Upholds P F (lookup name) env P := by
  rintro s rfl r t hr
  rw [runIn_lookup, Environment.get] at hr
  cases hv : s.env.get? name with
  | none =>
    rw [hv] at hr
    cases hr
    exact h
  | some v =>
    rw [hv] at hr
    cases hr
    exact henv name v hv

theorem makeFunction {params : List String} {body : Block}
    (h : ∀ id, P (.function id params body env)) :
    Upholds P F (makeFunction params body) env P := by
  rintro s rfl r t hr
  rw [runIn_makeFunction] at hr
  cases hr
  exact h s.nextId

theorem landing {P' : Value → Prop} {x : Eval Value} (h : Upholds P F x env P) :
    Upholds P' F (landing x) env P :=
  fun s hs => (h s hs).landing (fun _ _ hv => hv) (fun _ _ hv => hv) fun _ _ he => he

theorem within {env' : Environment Value} (h : Upholds P F x env Good) :
    Upholds P F (within env x) env' Good :=
  fun _ _ => .within (h _ rfl)

end Upholds

end Eval

end Monkey

import Monkey.Value.Operator

/-! # Operators work on data

A value other than a function is data. Operators give data or a fault of their
own, and no operator is defined on a function, so functions that differ in
nothing but their content make no difference to an operator.
-/

namespace Monkey

/-- Whether a value is no function. -/
def Value.IsData (v : Value) : Prop :=
  v.kind ≠ .function

/-- Whether two values are the same data or both functions. -/
def Value.Alike (v w : Value) : Prop :=
  v.kind = w.kind ∧ (v.IsData → v = w)

/-- The faults that operators give. -/
def Fault.OfOperator : Fault → Prop
  | .unsupported .. | .overflow _ | .divisionByZero => True
  | _ => False

/-- Whether a result is data, or a fault of an operator. -/
def IsOperatorResult : Except Fault Value → Prop
  | .ok v => v.IsData
  | .error e => e.OfOperator

namespace UnaryOp

theorem negate_isOperatorResult (v : Value) : IsOperatorResult (negate v) := by
  unfold negate
  split
  · split
    · exact nofun
    · trivial
  · trivial

theorem complement_isOperatorResult (v : Value) : IsOperatorResult (complement v) := by
  unfold complement
  split
  · exact nofun
  · trivial

theorem apply_isOperatorResult (op : UnaryOp) (v : Value) : IsOperatorResult (op.apply v) := by
  unfold apply
  split
  · next operation h =>
    unfold operation? at h
    split at h <;> cases h
    · exact negate_isOperatorResult v
    · exact complement_isOperatorResult v
  · trivial

theorem operation?_function (op : UnaryOp) : op.operation? .function = none := by
  cases op <;> rfl

theorem apply_congr (op : UnaryOp) {v w : Value} (h : v.Alike w) : op.apply v = op.apply w := by
  by_cases hv : v.IsData
  · rw [h.2 hv]
  · have hk : v.kind = .function := Decidable.not_not.1 hv
    simp only [apply, unsupported, ← h.1, hk, operation?_function]

end UnaryOp

namespace BinaryOp

theorem exact_isOperatorResult (op : BinaryOp) (n : Int) : IsOperatorResult (op.exact n) := by
  unfold BinaryOp.exact
  split
  · exact nofun
  · trivial

theorem quotient_isOperatorResult (m n : Int) : IsOperatorResult (quotient m n) := by
  unfold quotient
  split
  · trivial
  · exact exact_isOperatorResult ..

theorem onIntegers_isOperatorResult (op : BinaryOp) {f : Int → Int → Except Fault Value}
    (hf : ∀ m n, IsOperatorResult (f m n)) (v w : Value) :
    IsOperatorResult (op.onIntegers f v w) := by
  unfold onIntegers
  split
  · exact hf ..
  · trivial

theorem onBooleans_isOperatorResult (op : BinaryOp) (f : Bool → Bool → Bool) (v w : Value) :
    IsOperatorResult (op.onBooleans f v w) := by
  unfold onBooleans
  split
  · exact nofun
  · trivial

theorem concatenate_isOperatorResult (v w : Value) : IsOperatorResult (concatenate v w) := by
  unfold concatenate
  split
  · exact nofun
  · trivial

theorem bool_isOperatorResult (b : Bool) : IsOperatorResult (.ok (.bool b)) :=
  nofun

theorem apply_isOperatorResult (op : BinaryOp) (v w : Value) :
    IsOperatorResult (op.apply v w) := by
  unfold apply
  split
  · next operation h =>
    unfold operation? at h
    split at h <;> cases h
    · exact onIntegers_isOperatorResult _ (fun _ _ => exact_isOperatorResult ..) v w
    · exact onIntegers_isOperatorResult _ (fun _ _ => exact_isOperatorResult ..) v w
    · exact onIntegers_isOperatorResult _ (fun _ _ => exact_isOperatorResult ..) v w
    · exact onIntegers_isOperatorResult _ quotient_isOperatorResult v w
    · exact onIntegers_isOperatorResult _ (fun _ _ => bool_isOperatorResult _) v w
    · exact onIntegers_isOperatorResult _ (fun _ _ => bool_isOperatorResult _) v w
    · exact onIntegers_isOperatorResult _ (fun _ _ => bool_isOperatorResult _) v w
    · exact onIntegers_isOperatorResult _ (fun _ _ => bool_isOperatorResult _) v w
    · exact onBooleans_isOperatorResult ..
    · exact onBooleans_isOperatorResult ..
    · exact bool_isOperatorResult _
    · exact bool_isOperatorResult _
    · exact bool_isOperatorResult _
    · exact bool_isOperatorResult _
    · exact concatenate_isOperatorResult v w
  · trivial

theorem operation?_function_left (op : BinaryOp) (k : Value.Kind) :
    op.operation? .function k = none := by
  cases op <;> cases k <;> rfl

theorem operation?_function_right (op : BinaryOp) (k : Value.Kind) :
    op.operation? k .function = none := by
  cases op <;> cases k <;> rfl

theorem apply_congr (op : BinaryOp) {v v' w w' : Value} (hv : v.Alike v') (hw : w.Alike w') :
    op.apply v w = op.apply v' w' := by
  by_cases hvd : v.IsData
  · by_cases hwd : w.IsData
    · rw [hv.2 hvd, hw.2 hwd]
    · have hk : w.kind = .function := Decidable.not_not.1 hwd
      simp only [apply, unsupported, ← hv.1, ← hw.1, hk, operation?_function_right]
  · have hk : v.kind = .function := Decidable.not_not.1 hvd
    simp only [apply, unsupported, ← hv.1, ← hw.1, hk, operation?_function_left]

end BinaryOp

end Monkey

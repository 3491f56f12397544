import Monkey.Proofs.Evaluation.Operators
import Monkey.Proofs.Identity.Soundness

/-! # Comparisons are coherent

Equality has an operator on integers and truth values only, in any mixture, and order on
integers only. Where an operator of equality is defined, it says what the equality of
values says, although the two are written apart. An operator that compares has a converse,
which says the same of the operands in the other order, and is undefined where it is.
-/

namespace Monkey

namespace Value

/-- Whether a value is an integer or a truth value. -/
def IsScalar (v : Value) : Prop :=
  v.kind = .integer ∨ v.kind = .boolean

instance (v : Value) : Decidable v.IsScalar :=
  inferInstanceAs (Decidable (_ ∨ _))

variable {v w : Value}

theorem same_comm (v w : Value) : (v == w) = (w == v) := by
  rw [Bool.eq_iff_iff, same_iff, same_iff, eq_comm]

theorem exists_int (h : v.kind = .integer) : ∃ n, v = int n := by
  cases v with
  | int n => exact ⟨n, rfl⟩
  | _ => cases h

theorem exists_bool (h : v.kind = .boolean) : ∃ b, v = bool b := by
  cases v with
  | bool b => exact ⟨b, rfl⟩
  | _ => cases h

theorem exists_str (h : v.kind = .string) : ∃ s, v = str s := by
  cases v with
  | str s => exact ⟨s, rfl⟩
  | _ => cases h

end Value

/-- Whether a result is anything but an operator that is not defined on its operands. -/
def Supported (r : Except Fault Value) : Prop :=
  ∀ op kinds, r ≠ .error (.unsupported op kinds)

theorem Supported.ok (v : Value) : Supported (.ok v) := nofun

/-! ## Operations in the registry are defined -/

theorem UnaryOp.operation?_supported {op : UnaryOp} {operation : UnaryOperation} {v : Value}
    (h : op.operation? v.kind = some operation) : Supported (operation v) := by
  generalize hv : v.kind = k at h
  unfold operation? at h
  split at h <;> cases h
  · obtain ⟨n, rfl⟩ := Value.exists_int hv
    unfold negate
    cases hfits : Integer.ofInt? (-n.toInt) <;> simp only [hfits] <;> exact nofun
  · obtain ⟨b, rfl⟩ := Value.exists_bool hv
    exact .ok _

namespace BinaryOp

variable {v w : Value}

theorem exact_supported (op : BinaryOp) (n : Int) : Supported (op.exact n) := by
  unfold BinaryOp.exact
  split <;> exact nofun

theorem quotient_supported (m n : Int) : Supported (quotient m n) := by
  unfold quotient
  split
  · exact nofun
  · exact exact_supported div _

theorem onIntegers_supported {op : BinaryOp} {f : Int → Int → Except Fault Value}
    (hf : ∀ m n, Supported (f m n)) (hv : v.kind = .integer) (hw : w.kind = .integer) :
    Supported (op.onIntegers f v w) := by
  obtain ⟨m, rfl⟩ := Value.exists_int hv
  obtain ⟨n, rfl⟩ := Value.exists_int hw
  exact hf m.toInt n.toInt

theorem onBooleans_supported {op : BinaryOp} (f : Bool → Bool → Bool) (hv : v.kind = .boolean)
    (hw : w.kind = .boolean) : Supported (op.onBooleans f v w) := by
  obtain ⟨a, rfl⟩ := Value.exists_bool hv
  obtain ⟨b, rfl⟩ := Value.exists_bool hw
  exact .ok _

theorem concatenate_supported (hv : v.kind = .string) (hw : w.kind = .string) :
    Supported (concatenate v w) := by
  obtain ⟨s, rfl⟩ := Value.exists_str hv
  obtain ⟨t, rfl⟩ := Value.exists_str hw
  exact .ok _

/-- What the registry has for the kinds of two values is defined on these values. -/
theorem operation?_supported {op : BinaryOp} {operation : BinaryOperation}
    (h : op.operation? v.kind w.kind = some operation) : Supported (operation v w) := by
  generalize hv : v.kind = k, hw : w.kind = l at h
  unfold operation? at h
  split at h <;> cases h
  · exact onIntegers_supported (fun _ _ => exact_supported add _) hv hw
  · exact onIntegers_supported (fun _ _ => exact_supported sub _) hv hw
  · exact onIntegers_supported (fun _ _ => exact_supported mul _) hv hw
  · exact onIntegers_supported quotient_supported hv hw
  · exact onIntegers_supported (fun _ _ => .ok _) hv hw
  · exact onIntegers_supported (fun _ _ => .ok _) hv hw
  · exact onIntegers_supported (fun _ _ => .ok _) hv hw
  · exact onIntegers_supported (fun _ _ => .ok _) hv hw
  · exact onBooleans_supported _ hv hw
  · exact onBooleans_supported _ hv hw
  · exact .ok _
  · exact .ok _
  · exact .ok _
  · exact .ok _
  · exact concatenate_supported hv hw

/-! ## Equality -/

theorem apply_of_none {op : BinaryOp} (h : op.operation? v.kind w.kind = none) :
    op.apply v w = .error (op.unsupported v w) := by
  rw [apply, h]

/-- Equality of integers is the equality of values. -/
theorem decide_toInt_eq (m n : Integer) :
    decide (m.toInt = n.toInt) = (Value.int m == Value.int n) := by
  change _ = (m == n)
  rw [Bool.eq_iff_iff, decide_eq_true_iff, beq_iff_eq, Int64.toInt_inj]

theorem eq_apply (v w : Value) : eq.apply v w =
    if v.IsScalar ∧ w.IsScalar then .ok (.bool (v == w)) else .error (eq.unsupported v w) := by
  cases v <;> cases w
  case int.int m n =>
    rw [← decide_toInt_eq]
    rfl
  all_goals rfl

theorem notEq_apply (v w : Value) : notEq.apply v w =
    if v.IsScalar ∧ w.IsScalar then .ok (.bool !(v == w))
    else .error (notEq.unsupported v w) := by
  cases v <;> cases w
  case int.int m n =>
    rw [← decide_toInt_eq, ← decide_not]
    rfl
  all_goals rfl

/-! ## Order -/

theorem lt_apply_int (m n : Integer) :
    lt.apply (.int m) (.int n) = .ok (.bool (m.toInt < n.toInt)) := rfl

theorem eq_apply_int (m n : Integer) :
    eq.apply (.int m) (.int n) = .ok (.bool (m.toInt = n.toInt)) := rfl

theorem gt_apply_int (m n : Integer) :
    gt.apply (.int m) (.int n) = .ok (.bool (m.toInt > n.toInt)) := rfl

/-- Of two integers, the one is less than, equal to or greater than the other. -/
theorem existsUnique_order (m n : Integer) :
    ∃! op : BinaryOp, op ∈ [lt, eq, gt] ∧ op.apply (.int m) (.int n) = .ok (.bool true) := by
  have hiff (op : BinaryOp) : op ∈ [lt, eq, gt] ∧ op.apply (.int m) (.int n) = .ok (.bool true) ↔
      op = lt ∧ m.toInt < n.toInt ∨ op = eq ∧ m.toInt = n.toInt ∨ op = gt ∧ m.toInt > n.toInt := by
    cases op <;> simp [lt_apply_int, eq_apply_int, gt_apply_int]
  simp only [hiff]
  obtain h | h | h := lt_trichotomy m.toInt n.toInt
  · refine ⟨lt, .inl ⟨rfl, h⟩, ?_⟩
    rintro op (⟨hop, -⟩ | ⟨-, h'⟩ | ⟨-, h'⟩)
    · exact hop
    all_goals omega
  · refine ⟨eq, .inr (.inl ⟨rfl, h⟩), ?_⟩
    rintro op (⟨-, h'⟩ | ⟨hop, -⟩ | ⟨-, h'⟩)
    · omega
    · exact hop
    · omega
  · refine ⟨gt, .inr (.inr ⟨rfl, h⟩), ?_⟩
    rintro op (⟨-, h'⟩ | ⟨-, h'⟩ | ⟨hop, -⟩)
    · omega
    · omega
    · exact hop

theorem order_operation?_eq_none {op : BinaryOp} (hop : op ∈ [lt, gt]) {k l : Value.Kind}
    (h : ¬(k = .integer ∧ l = .integer)) : op.operation? k l = none := by
  simp only [List.mem_cons, List.not_mem_nil, or_false] at hop
  obtain rfl | rfl := hop <;> cases k <;> cases l <;> first | rfl | exact absurd ⟨rfl, rfl⟩ h

/-! ## The converse -/

/-- The operators that compare their operands. -/
def comparisons : List BinaryOp := [eq, notEq, lt, gt]

/-- The comparison that says the same of the operands in the other order. -/
def converse : BinaryOp → BinaryOp
  | lt => gt
  | gt => lt
  | op => op

/-- Whether a comparison and its converse give one truth value, or neither is defined. -/
def Mirrored (op : BinaryOp) (v w : Value) : Prop :=
  (∃ b, op.apply v w = .ok (.bool b) ∧ op.converse.apply w v = .ok (.bool b)) ∨
    op.apply v w = .error (op.unsupported v w) ∧
      op.apply w v = .error (op.unsupported w v) ∧
      op.converse.apply w v = .error (op.converse.unsupported w v)

theorem equality_mirrored {op : BinaryOp} {f : Bool → Bool} (hop : op.converse = op)
    (happly : ∀ v w, op.apply v w = if v.IsScalar ∧ w.IsScalar then .ok (.bool (f (v == w)))
      else .error (op.unsupported v w)) (v w : Value) : op.Mirrored v w := by
  have hcomm : v.IsScalar ∧ w.IsScalar ↔ w.IsScalar ∧ v.IsScalar := and_comm
  rw [Mirrored, hop, happly v w, happly w v, Value.same_comm w v]
  by_cases h : v.IsScalar ∧ w.IsScalar
  · rw [if_pos h, if_pos (hcomm.1 h)]
    exact .inl ⟨_, rfl, rfl⟩
  · rw [if_neg h, if_neg (mt hcomm.2 h)]
    exact .inr ⟨rfl, rfl, rfl⟩

theorem order_mirrored {op : BinaryOp} (hop : op ∈ [lt, gt]) (v w : Value) : op.Mirrored v w := by
  have hconverse : op.converse ∈ [lt, gt] := by
    simp only [List.mem_cons, List.not_mem_nil, or_false] at hop
    obtain rfl | rfl := hop <;> decide
  by_cases h : v.kind = .integer ∧ w.kind = .integer
  · obtain ⟨m, rfl⟩ := Value.exists_int h.1
    obtain ⟨n, rfl⟩ := Value.exists_int h.2
    simp only [List.mem_cons, List.not_mem_nil, or_false] at hop
    obtain rfl | rfl := hop <;> exact .inl ⟨_, rfl, rfl⟩
  · have hswap : ¬(w.kind = .integer ∧ v.kind = .integer) := fun h' => h h'.symm
    exact .inr ⟨apply_of_none (order_operation?_eq_none hop h),
      apply_of_none (order_operation?_eq_none hop hswap),
      apply_of_none (order_operation?_eq_none hconverse hswap)⟩

theorem mirrored_of_comparison {op : BinaryOp} (hop : op ∈ comparisons) (v w : Value) :
    op.Mirrored v w := by
  simp only [comparisons, List.mem_cons, List.not_mem_nil, or_false] at hop
  obtain rfl | rfl | rfl | rfl := hop
  · exact equality_mirrored (f := id) rfl eq_apply v w
  · exact equality_mirrored rfl notEq_apply v w
  · exact order_mirrored (by decide) v w
  · exact order_mirrored (by decide) v w

theorem Mirrored.ok_iff {op : BinaryOp} (h : op.Mirrored v w) (r : Value) :
    op.apply v w = .ok r ↔ op.converse.apply w v = .ok r := by
  obtain ⟨b, h, h'⟩ | ⟨h, -, h'⟩ := h <;> simp [h, h']

theorem eq_ok_iff {r : Value} :
    eq.apply v w = .ok r ↔ (v.IsScalar ∧ w.IsScalar) ∧ r = .bool (v == w) := by
  rw [eq_apply]
  split <;> simp [*, eq_comm]

theorem notEq_ok_iff {r : Value} :
    notEq.apply v w = .ok r ↔ (v.IsScalar ∧ w.IsScalar) ∧ r = .bool !(v == w) := by
  rw [notEq_apply]
  split <;> simp [*, eq_comm]

end BinaryOp

open BinaryOp in
/--
Where equality is defined as an operator, it is the equality of values, and inequality is defined
there and nowhere else, as its negation. Both are symmetric, and less and greater say the same of
the operands in the other order. Two integers are always compared, and exactly one of less, equal
and greater is true of them. A comparison fails only because it is not defined on the kinds of its
operands, and then so do it and its converse in the other order, with these kinds reversed. No
operation that the registry has for the kinds of its operands fails in this way.
-/
theorem comparisons_coherent (v w : Value) :
    (∀ r, BinaryOp.eq.apply v w = .ok r → r = .bool (v == w)) ∧
      (∀ r, notEq.apply v w = .ok r ↔ ∃ b, BinaryOp.eq.apply v w = .ok (.bool b) ∧ r = .bool !b) ∧
      (∀ r, BinaryOp.eq.apply v w = .ok r ↔ BinaryOp.eq.apply w v = .ok r) ∧
      (∀ r, notEq.apply v w = .ok r ↔ notEq.apply w v = .ok r) ∧
      (∀ r, lt.apply v w = .ok r ↔ gt.apply w v = .ok r) ∧
      (v.kind = .integer → w.kind = .integer →
        (∀ op ∈ comparisons, ∃ b, op.apply v w = .ok (.bool b)) ∧
          ∃! op : BinaryOp, op ∈ [lt, BinaryOp.eq, gt] ∧ op.apply v w = .ok (.bool true)) ∧
      (∀ op ∈ comparisons, ∀ e, op.apply v w = .error e →
        e = .unsupported op.symbol [v.kind, w.kind] ∧
          ∀ op' ∈ [op, op.converse],
            op'.apply w v = .error (.unsupported op'.symbol [w.kind, v.kind])) ∧
      (∀ (op : BinaryOp) operation, op.operation? v.kind w.kind = some operation →
        Supported (operation v w)) ∧
      ∀ (op : UnaryOp) operation, op.operation? v.kind = some operation →
        Supported (operation v) := by
  refine ⟨fun r hr => (eq_ok_iff.1 hr).2, fun r => ?_, ?_, ?_, ?_, ?_, ?_, ?_, ?_⟩
  · simp [notEq_ok_iff, eq_ok_iff, and_assoc]
  · exact (mirrored_of_comparison (by decide) v w).ok_iff
  · exact (mirrored_of_comparison (by decide) v w).ok_iff
  · exact (mirrored_of_comparison (by decide) v w).ok_iff
  · intro hv hw
    obtain ⟨m, rfl⟩ := Value.exists_int hv
    obtain ⟨n, rfl⟩ := Value.exists_int hw
    refine ⟨fun op hop => ?_, existsUnique_order m n⟩
    simp only [comparisons, List.mem_cons, List.not_mem_nil, or_false] at hop
    obtain rfl | rfl | rfl | rfl := hop <;> exact ⟨_, rfl⟩
  · intro op hop e he
    obtain ⟨b, hb, -⟩ | ⟨h, hswap, hconverse⟩ := mirrored_of_comparison hop v w
    · cases hb.symm.trans he
    · cases h.symm.trans he
      refine ⟨rfl, ?_⟩
      simp only [List.forall_mem_cons, List.not_mem_nil, false_imp_iff, implies_true, and_true]
      exact ⟨hswap, hconverse⟩
  · exact fun _ _ => BinaryOp.operation?_supported
  · exact fun _ _ => UnaryOp.operation?_supported

end Monkey

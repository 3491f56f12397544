import Mathlib.Algebra.Order.Archimedean.Real.Basic
import Monkey.Value.Machine

/-! # Integer arithmetic is exact or refused

An operator on integers gives the exact result, or refuses because that is no integer of
64 bits; a quotient is the real one rounded down. The machine computes just this: what
it checks has wrapped if and only if the exact result does not fit, and what it does not
check always fits, the remainder and the correction of a quotient included.
-/

namespace Monkey

namespace Integer

/-- Whether a whole number is an integer of 64 bits. -/
def Fits (n : Int) : Prop :=
  -2 ^ 63 ≤ n ∧ n < 2 ^ 63

theorem fits_toInt (m : Integer) : Fits m.toInt :=
  ⟨m.le_toInt, m.toInt_lt⟩

theorem ofInt?_eq_none_iff_not_fits {n : Int} : ofInt? n = none ↔ ¬Fits n := by
  rw [ofInt?_eq_none_iff, Int64.toInt_minValue, Int64.toInt_maxValue, Fits]
  omega

/-- What wraps exactly where the exact result does not fit, and is exact elsewhere, is `ofInt?`. -/
theorem guarded_eq_ofInt? {wraps : Prop} [Decidable wraps] {result : Integer} {n : Int}
    (hout : wraps ↔ ¬Fits n) (hin : ¬wraps → result.toInt = n) :
    (if wraps then none else some result) = ofInt? n := by
  split
  · next h => exact (ofInt?_eq_none_iff_not_fits.2 (hout.1 h)).symm
  · next h => exact (ofInt?_eq_some_iff.2 (hin h)).symm

theorem add?_eq (m n : Integer) : m.add? n = ofInt? (m.toInt + n.toInt) := by
  refine guarded_eq_ofInt? ?_ BitVec.toInt_add_of_not_saddOverflow
  simp only [BitVec.saddOverflow, Bool.or_eq_true, decide_eq_true_eq, Int64.toInt_toBitVec, Fits]
  omega

theorem sub?_eq (m n : Integer) : m.sub? n = ofInt? (m.toInt - n.toInt) := by
  refine guarded_eq_ofInt? ?_ BitVec.toInt_sub_of_not_ssubOverflow
  simp only [BitVec.ssubOverflow, Bool.or_eq_true, decide_eq_true_eq, Int64.toInt_toBitVec, Fits]
  omega

theorem mul?_eq (m n : Integer) : m.mul? n = ofInt? (m.toInt * n.toInt) := by
  refine guarded_eq_ofInt? ?_ BitVec.toInt_mul_of_not_smulOverflow
  simp only [BitVec.smulOverflow, Bool.or_eq_true, decide_eq_true_eq, Int64.toInt_toBitVec, Fits]
  omega

theorem neg?_eq (m : Integer) : m.neg? = ofInt? (-m.toInt) := by
  refine guarded_eq_ofInt? ?_ BitVec.toInt_neg_of_not_negOverflow
  have hm := m.fits_toInt
  simp only [BitVec.negOverflow, beq_iff_eq, Int64.toInt_toBitVec, Fits] at hm ⊢
  omega

/-! ## Division -/

/-- The quotient and what it leaves are exact, apart from the one quotient that does not fit. -/
theorem toInt_div_mod {m n : Integer} (h : ¬(m = Int64.minValue ∧ n = -1)) :
    (m / n).toInt = m.toInt.tdiv n.toInt ∧ (m % n).toInt = m.toInt.tmod n.toInt := by
  refine ⟨?_, Int64.toInt_mod m n⟩
  by_cases hm : m = Int64.minValue
  · exact Int64.toInt_div_of_ne_right m n fun hn => h ⟨hm, hn⟩
  · exact Int64.toInt_div_of_ne_left m n hm

/-- The quotient rounded down is one less than towards zero if it is negative and not exact. -/
theorem fdiv_eq_tdiv_sub {m n : Int} (hn : n ≠ 0) :
    m.fdiv n = m.tdiv n - if m.tmod n ≠ 0 ∧ ¬(m < 0 ↔ n < 0) then 1 else 0 := by
  rw [Int.fdiv_eq_tdiv]
  by_cases hdvd : n ∣ m
  · rw [if_pos hdvd, if_neg fun h => h.1 (Int.dvd_iff_tmod_eq_zero.1 hdvd)]
  · have htmod : m.tmod n ≠ 0 := mt Int.dvd_of_tmod_eq_zero hdvd
    rw [if_neg hdvd]
    rcases Int.lt_or_gt_of_ne hn with hneg | hpos
    · have hsign : n.sign = -1 := Int.sign_eq_neg_one_of_neg hneg
      by_cases hm : m < 0 <;> simp [htmod, hm, hneg, hsign] <;> omega
    · by_cases hm : m < 0 <;> simp [htmod, hm, Int.sign_eq_one_of_pos hpos] <;> omega

/-- A divisor that leaves something is not one, so there is room for the correction. -/
theorem fits_tdiv_sub_one {m n : Int} (hm : Fits m) (hn : n ≠ 0) (h : m.tmod n ≠ 0) :
    Fits (m.tdiv n - 1) := by
  have htwo : 2 ≤ n.natAbs := by
    by_contra hlt
    have hunit : n.natAbs = 1 := by omega
    exact h (Int.dvd_iff_tmod_eq_zero.1 (Int.natAbs_dvd.1 (by simp [hunit])))
  have hhalf : (m.tdiv n).natAbs ≤ m.natAbs / 2 := by
    rw [Int.natAbs_tdiv]
    exact Nat.div_le_div_left htwo (by decide)
  unfold Fits at hm ⊢
  omega

/-- Every step of a division stays in 64 bits, if the quotient does. -/
theorem fits_steps {m n : Integer} (hn : n ≠ 0) (hmn : ¬(m = Int64.minValue ∧ n = -1)) :
    Fits (m.toInt.tdiv n.toInt) ∧ Fits (m.toInt.tmod n.toInt) ∧
      (m.toInt.tmod n.toInt ≠ 0 → Fits (m.toInt.tdiv n.toInt - 1)) := by
  obtain ⟨hdiv, hmod⟩ := toInt_div_mod hmn
  have hzero : n.toInt ≠ 0 := mt (Int64.toInt_inj (y := 0)).1 hn
  exact ⟨hdiv ▸ fits_toInt (m / n), hmod ▸ fits_toInt (m % n),
    fits_tdiv_sub_one m.fits_toInt hzero⟩

/-- Only one quotient of integers does not fit. -/
theorem not_fits_fdiv_iff {m n : Integer} (hn : n ≠ 0) :
    ¬Fits (m.toInt.fdiv n.toInt) ↔ m = Int64.minValue ∧ n = -1 := by
  have hzero : n.toInt ≠ 0 := mt (Int64.toInt_inj (y := 0)).1 hn
  constructor
  · intro hout
    by_contra hmn
    obtain ⟨hdiv, -, hcorrected⟩ := fits_steps hn hmn
    rw [fdiv_eq_tdiv_sub hzero] at hout
    split at hout
    · next h => exact hout (hcorrected h.1)
    · exact hout (by rwa [Int.sub_zero])
  · rintro ⟨rfl, rfl⟩
    unfold Fits
    decide

/-- The real quotient of whole numbers, rounded down. -/
theorem floor_div (m n : Int) : ⌊(m / n : ℝ)⌋ = m.fdiv n := by
  rcases Int.le_total 0 n with hn | hn
  · rw [Int.floor_div_cast_of_nonneg hn, Int.floor_intCast, Int.fdiv_eq_ediv_of_nonneg m hn]
  · have hneg : 0 ≤ -n := by omega
    rw [← Int.neg_fdiv_neg, Int.fdiv_eq_ediv_of_nonneg (-m) hneg, ← neg_div_neg_eq,
      ← Int.cast_neg, ← Int.cast_neg, Int.floor_div_cast_of_nonneg hneg, Int.floor_intCast]

/-! ## The machine -/

theorem map_checked (op : BinaryOp) {r : Option Integer} {n : Int} (h : r = ofInt? n) :
    (checked op.symbol r).map .int = (op.exact n).mapError .fault := by
  subst h
  unfold BinaryOp.exact
  cases ofInt? n <;> rfl

/-- The steps of a division that is neither refused nor stopped. -/
theorem floorDivide_eq {m n : Integer} (hn : n ≠ 0) (hmn : ¬(m = Int64.minValue ∧ n = -1)) :
    floorDivide m n = if m % n ≠ 0 ∧ ¬(m < 0 ↔ n < 0) then unchecked (sub? (m / n) 1)
      else .ok (m / n) := by
  have hguard : ¬(n = 0 ∨ m = Int64.minValue ∧ n = -1) := not_or.2 ⟨hn, hmn⟩
  rw [floorDivide, if_neg hn, div?, if_neg hguard, rem?, if_neg hguard]
  rfl

/-- The machine sees from its own integers whether a quotient is to be corrected. -/
theorem corrects_iff {m n : Integer} (hmn : ¬(m = Int64.minValue ∧ n = -1)) :
    (m % n ≠ 0 ∧ ¬(m < 0 ↔ n < 0)) ↔
      m.toInt.tmod n.toInt ≠ 0 ∧ ¬(m.toInt < 0 ↔ n.toInt < 0) := by
  rw [← (toInt_div_mod hmn).2, Int64.lt_iff_toInt_lt, Int64.lt_iff_toInt_lt, Int64.toInt_zero,
    ne_eq, ne_eq, ← Int64.toInt_inj, Int64.toInt_zero]

/-- The steps of a division rounded down, none of which leaves the 64 bits. -/
theorem map_floorDivide (m n : Integer) :
    (floorDivide m n).map .int = (BinaryOp.quotient m.toInt n.toInt).mapError .fault := by
  have hzero : n.toInt = 0 ↔ n = 0 := Int64.toInt_inj (y := 0)
  unfold BinaryOp.quotient
  by_cases hn : n = 0
  · rw [floorDivide, if_pos hn, if_pos (hzero.2 hn)]
    rfl
  rw [if_neg (mt hzero.1 hn), ← map_checked .div rfl]
  by_cases hmn : m = Int64.minValue ∧ n = -1
  · -- The truncated quotient does not fit, and the same number is the quotient rounded down.
    obtain ⟨rfl, rfl⟩ := hmn
    rfl
  have hdiv := (toInt_div_mod hmn).1
  rw [floorDivide_eq hn hmn, fdiv_eq_tdiv_sub (mt hzero.1 hn), ← hdiv]
  by_cases h : m % n ≠ 0 ∧ ¬(m < 0 ↔ n < 0)
  · have hcorrect := (corrects_iff hmn).1 h
    have hfits := (fits_steps hn hmn).2.2 hcorrect.1
    rw [← hdiv] at hfits
    obtain ⟨q, hq⟩ := Option.ne_none_iff_exists'.1
      (mt ofInt?_eq_none_iff_not_fits.1 (not_not.2 hfits))
    rw [if_pos h, if_pos hcorrect, sub?_eq, Int64.toInt_one, hq]
    rfl
  · rw [if_neg h, if_neg (mt (corrects_iff hmn).2 h), Int.sub_zero, ofInt?_toInt]
    rfl

end Integer

/-- What the machine computes is what the operators give: it never traps. -/
theorem BinaryOp.compute_eq (op : BinaryOp) (left right : Value) :
    op.compute left right = (op.apply left right).mapError .fault := by
  unfold compute
  split
  · next f m n hf =>
    cases op with
    | add =>
      cases hf
      exact Integer.map_checked .add (Integer.add?_eq m n)
    | sub =>
      cases hf
      exact Integer.map_checked .sub (Integer.sub?_eq m n)
    | mul =>
      cases hf
      exact Integer.map_checked .mul (Integer.mul?_eq m n)
    | div =>
      cases hf
      exact Integer.map_floorDivide m n
    | lt | gt | eq | notEq => cases hf
  · rfl

theorem BinaryOp.compute_ne_trap (op : BinaryOp) (left right : Value) :
    op.compute left right ≠ .error .trap := by
  rw [op.compute_eq]
  cases op.apply left right <;> exact nofun

theorem UnaryOp.compute_eq (op : UnaryOp) (operand : Value) :
    op.compute operand = (op.apply operand).mapError .fault := by
  unfold compute
  split
  · next f m hf =>
    cases op with
    | neg =>
      cases hf
      exact Integer.map_checked .sub (Integer.neg?_eq m)
    | not => cases hf
  · rfl

theorem UnaryOp.compute_ne_trap (op : UnaryOp) (operand : Value) :
    op.compute operand ≠ .error .trap := by
  rw [op.compute_eq]
  cases op.apply operand <;> exact nofun

/-! ## Exact results -/

/-- Whether a result is the integer `n`, or the refusal of an operator because there is none. -/
def ExactOrRefused (op : String) (n : Int) (r : Except Fault Value) : Prop :=
  (∃ m : Integer, m.toInt = n ∧ r = .ok (.int m)) ∨
    ¬Integer.Fits n ∧ r = .error (.overflow op)

theorem ExactOrRefused.refused_iff {op : String} {n : Int} {r : Except Fault Value}
    (h : ExactOrRefused op n r) : r = .error (.overflow op) ↔ ¬Integer.Fits n := by
  rcases h with ⟨m, rfl, rfl⟩ | ⟨hn, rfl⟩
  · simp [m.fits_toInt]
  · simp [hn]

namespace BinaryOp

theorem exact_exactOrRefused (op : BinaryOp) (n : Int) :
    ExactOrRefused op.symbol n (op.exact n) := by
  unfold BinaryOp.exact
  cases h : Integer.ofInt? n with
  | some m => exact .inl ⟨m, Integer.ofInt?_eq_some_iff.1 h, rfl⟩
  | none => exact .inr ⟨Integer.ofInt?_eq_none_iff_not_fits.1 h, rfl⟩

variable {l r : Integer}

theorem div_exactOrRefused (hr : r ≠ 0) :
    ExactOrRefused "/" (l.toInt.fdiv r.toInt) (div.apply (.int l) (.int r)) := by
  have hzero : r.toInt ≠ 0 := mt (Int64.toInt_inj (y := 0)).1 hr
  change ExactOrRefused "/" _ (quotient l.toInt r.toInt)
  rw [quotient, if_neg hzero]
  exact exact_exactOrRefused .div _

theorem div_zero (l : Integer) : div.apply (.int l) (.int 0) = .error .divisionByZero := rfl

theorem div_eq_divisionByZero_iff :
    div.apply (.int l) (.int r) = .error .divisionByZero ↔ r = 0 := by
  constructor
  · intro h
    by_contra hr
    rcases div_exactOrRefused (l := l) hr with ⟨m, -, hm⟩ | ⟨-, hm⟩ <;> simp [hm] at h
  · rintro rfl
    exact div_zero l

theorem div_refused_iff :
    div.apply (.int l) (.int r) = .error (.overflow "/") ↔ l = Int64.minValue ∧ r = -1 := by
  by_cases hr : r = 0
  · rw [hr, div_zero]
    simp
  · rw [(div_exactOrRefused hr).refused_iff, Integer.not_fits_fdiv_iff hr]

end BinaryOp

namespace UnaryOp

variable {m : Integer}

/-- A negative is refused like a difference. -/
theorem neg_exactOrRefused : ExactOrRefused "-" (-m.toInt) (neg.apply (.int m)) :=
  BinaryOp.exact_exactOrRefused .sub (-m.toInt)

theorem neg_refused_iff : neg.apply (.int m) = .error (.overflow "-") ↔ m = Int64.minValue := by
  rw [neg_exactOrRefused.refused_iff, ← Int64.toInt_inj, Int64.toInt_minValue]
  have hm := m.fits_toInt
  unfold Integer.Fits at hm ⊢
  omega

end UnaryOp

/--
An operator on integers gives the exact result, or refuses in its own name because there is no such
integer. A quotient is the real one rounded down: it is refused by its own fault where the divisor
is zero, and only the least integer divided by -1 does not fit. Where it fits, so do the quotient
rounded towards zero, what that leaves, and the quotient corrected by one. The machine, which takes
these steps, never wraps and never traps, whatever the operator and the operands are.
-/
theorem integer_arithmetic_exact (l r : Integer) :
    ExactOrRefused "+" (l.toInt + r.toInt) (BinaryOp.add.apply (.int l) (.int r)) ∧
      ExactOrRefused "-" (l.toInt - r.toInt) (BinaryOp.sub.apply (.int l) (.int r)) ∧
      ExactOrRefused "*" (l.toInt * r.toInt) (BinaryOp.mul.apply (.int l) (.int r)) ∧
      (BinaryOp.div.apply (.int l) (.int r) = .error .divisionByZero ↔ r = 0) ∧
      (r ≠ 0 → ExactOrRefused "/" ⌊(l.toInt / r.toInt : ℝ)⌋
        (BinaryOp.div.apply (.int l) (.int r))) ∧
      (BinaryOp.div.apply (.int l) (.int r) = .error (.overflow "/") ↔
        l = Int64.minValue ∧ r = -1) ∧
      (r ≠ 0 → ¬(l = Int64.minValue ∧ r = -1) →
        Integer.Fits (l.toInt.tdiv r.toInt) ∧ Integer.Fits (l.toInt.tmod r.toInt) ∧
        (l.toInt.tmod r.toInt ≠ 0 → Integer.Fits (l.toInt.tdiv r.toInt - 1))) ∧
      ExactOrRefused "-" (-l.toInt) (UnaryOp.neg.apply (.int l)) ∧
      (UnaryOp.neg.apply (.int l) = .error (.overflow "-") ↔ l = Int64.minValue) ∧
      (∀ op v, UnaryOp.compute op v = (op.apply v).mapError .fault ∧
        op.compute v ≠ .error .trap) ∧
      ∀ op v w, BinaryOp.compute op v w = (op.apply v w).mapError .fault ∧
        op.compute v w ≠ .error .trap := by
  refine ⟨BinaryOp.exact_exactOrRefused .add _, BinaryOp.exact_exactOrRefused .sub _,
    BinaryOp.exact_exactOrRefused .mul _, BinaryOp.div_eq_divisionByZero_iff, ?_,
    BinaryOp.div_refused_iff, Integer.fits_steps, UnaryOp.neg_exactOrRefused,
    UnaryOp.neg_refused_iff, ?_, ?_⟩
  · intro hr
    rw [Integer.floor_div]
    exact BinaryOp.div_exactOrRefused hr
  · exact fun op v => ⟨op.compute_eq v, op.compute_ne_trap v⟩
  · exact fun op v w => ⟨op.compute_eq v w, op.compute_ne_trap v w⟩

/-- A quotient that is corrected, one that is not, and the only one that is refused. -/
example :
    BinaryOp.div.compute (.int (-15)) (.int 2) = .ok (.int (-8)) ∧
      BinaryOp.div.compute (.int (-15)) (.int (-2)) = .ok (.int 7) ∧
      BinaryOp.div.compute (.int Int64.minValue) (.int (-1)) =
        .error (.fault (.overflow "/")) :=
  ⟨rfl, rfl, rfl⟩

end Monkey

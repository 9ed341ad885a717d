import Mathlib.Algebra.Order.Field.Basic
import Mathlib.Algebra.Order.Group.MinMax
import Mathlib.Tactic.Linarith
import Mathlib.Tactic.Ring

/-! Functions given piece by piece: a rate of change that bounds every piece bounds the whole,
and a bound on the derivative of a cubic bounds the cubic's rate of change. -/

namespace Piecewise

variable {K : Type*} [Field K] [LinearOrder K] [IsStrictOrderedRing K]

/-- Between `low` and `high` the function changes by at most `rate` for each unit. -/
def Limited (rate : K) (f : K → K) (low high : K) : Prop :=
  ∀ a b, low ≤ a → a ≤ b → b ≤ high → |f b - f a| ≤ rate * (b - a)

variable {rate : K} {f g : K → K} {low middle high : K}

omit [IsStrictOrderedRing K] in
theorem Limited.congr (limited : Limited rate f low high) (same : ∀ t, low ≤ t → t ≤ high → g t = f t) :
    Limited rate g low high := by
  intro a b start order final
  rw [same a start (order.trans final), same b (start.trans order) final]
  exact limited a b start order final

/-- Two pieces that meet. -/
theorem Limited.append (left : Limited rate f low middle) (right : Limited rate f middle high) :
    Limited rate f low high := by
  intro a b start order final
  rcases le_total b middle with before | after
  · exact left a b start order before
  · rcases le_total middle a with later | earlier
    · exact right a b later order final
    · have first := left a middle start earlier le_rfl
      have second := right middle b le_rfl after final
      calc |f b - f a|
        _ ≤ |f b - f middle| + |f middle - f a| := abs_sub_le _ _ _
        _ ≤ rate * (b - middle) + rate * (middle - a) := add_le_add second first
        _ = rate * (b - a) := by ring

/-- As many pieces as there are. -/
theorem Limited.pieces {knot : Nat → K} {n : Nat} (each : ∀ i < n, Limited rate f (knot i) (knot (i + 1))) :
    Limited rate f (knot 0) (knot n) := by
  induction n with
  | zero =>
    intro a b start order final
    have same : b = a := le_antisymm (final.trans start) order
    rw [same, sub_self, sub_self, abs_zero, mul_zero]
  | succ n ih => exact (ih fun i inside => each i (Nat.lt_succ_of_lt inside)).append (each n n.lt_succ_self)

/-- Both ways, and constant outside. -/
theorem Limited.clamped (limited : Limited rate f low high) (order : low ≤ high) (nonneg : 0 ≤ rate) (a b : K) :
    |f (max low (min b high)) - f (max low (min a high))| ≤ rate * |b - a| := by
  have inside (t : K) : low ≤ max low (min t high) ∧ max low (min t high) ≤ high :=
    ⟨le_max_left _ _, max_le order (min_le_right _ _)⟩
  have narrow : |max low (min b high) - max low (min a high)| ≤ |b - a| := by
    calc |max low (min b high) - max low (min a high)|
      _ ≤ |min b high - min a high| := by
          rw [max_comm low, max_comm low]
          exact abs_max_sub_max_le_abs _ _ _
      _ ≤ max |b - a| |high - high| := abs_min_sub_min_le_max _ _ _ _
      _ = |b - a| := by rw [sub_self, abs_zero, max_eq_left (abs_nonneg _)]
  refine le_trans ?_ (mul_le_mul_of_nonneg_left narrow nonneg)
  rcases le_total (max low (min a high)) (max low (min b high)) with ahead | behind
  · rw [abs_of_nonneg (sub_nonneg.mpr ahead)]
    exact limited _ _ (inside a).1 ahead (inside b).2
  · rw [abs_sub_comm, abs_sub_comm (max low (min b high)), abs_of_nonneg (sub_nonneg.mpr behind)]
    exact limited _ _ (inside b).1 behind (inside a).2

/-- The change of a cubic is the mean of its slopes at both ends and, four times, in the middle. -/
theorem Limited.cubic {slope : K → K} (simpson : ∀ a b, f b - f a = (b - a) * ((slope a + 4 * slope ((a + b) / 2) + slope b) / 6))
    (bound : ∀ t, low ≤ t → t ≤ high → |slope t| ≤ rate) : Limited rate f low high := by
  intro a b start order final
  have middle : low ≤ (a + b) / 2 ∧ (a + b) / 2 ≤ high := ⟨by linarith, by linarith⟩
  have first := abs_le.mp (bound a start (order.trans final))
  have between := abs_le.mp (bound _ middle.1 middle.2)
  have last := abs_le.mp (bound b (start.trans order) final)
  have mean : |(slope a + 4 * slope ((a + b) / 2) + slope b) / 6| ≤ rate := by
    rw [abs_le]
    constructor <;> linarith [first.1, first.2, between.1, between.2, last.1, last.2]
  rw [simpson, abs_mul, abs_of_nonneg (sub_nonneg.mpr order), mul_comm]
  exact mul_le_mul_of_nonneg_right mean (sub_nonneg.mpr order)

/-- The same function of a scaled and shifted argument. -/
theorem Limited.rescale (limited : Limited rate f 0 1) (start : K) {length : K} (positive : 0 < length) :
    Limited (rate / length) (fun t => f ((t - start) / length)) start (start + length) := by
  intro a b begins order ends
  have first : 0 ≤ (a - start) / length := div_nonneg (sub_nonneg.mpr begins) positive.le
  have kept : (a - start) / length ≤ (b - start) / length := by
    rw [div_le_div_iff_of_pos_right positive]
    exact sub_le_sub_right order _
  have last : (b - start) / length ≤ 1 := (div_le_one positive).mpr (by linarith)
  have bounded := limited _ _ first kept last
  have scaled : rate * ((b - start) / length - (a - start) / length) = rate / length * (b - a) := by ring
  rwa [scaled] at bounded

end Piecewise

import RoboticsRt.Proofs.SecondDeriv
import Mathlib.Algebra.Order.Field.Rat

/-! The duration of a fit only sets how fast its path is traversed. Scaling the duration
by `factor` scales the knots with it and divides the `k`-th coefficient of every piece by
`factor ^ k`, so the same path is played at another speed. -/

namespace RoboticsRt

variable {K : Type} [Field K]

def Segment.rescale (factor : K) (seg : Segment K) : Segment K where
  tStart := factor * seg.tStart
  h := factor * seg.h
  coeff := seg.coeff.mapIdx fun k coeff => coeff / factor ^ k

def Trajectory.rescale (factor : K) (traj : Trajectory K) : Trajectory K :=
  { traj with
    durationS := factor * traj.durationS
    segments := traj.segments.map fun row => row.map (Segment.rescale factor) }

theorem Segment.rescale_default (factor : K) : (default : Segment K).rescale factor = default := by
  simp [default, Segment.rescale]

theorem Segment.rescale_at {factor : K} (nonzero : factor ≠ 0) (seg : Segment K) (tau : K) :
    (seg.rescale factor).at (factor * tau) = seg.at tau := by
  simp only [Segment.at, Segment.rescale, Vector.getElem_mapIdx]
  field_simp

theorem Trajectory.rescale_row (factor : K) (traj : Trajectory K) (j : Nat) :
    (traj.rescale factor).segments.getD j [] = (traj.segments.getD j []).map (Segment.rescale factor) :=
  List.getD_map traj.segments [] fun row => row.map (Segment.rescale factor)

theorem Trajectory.rescale_segment (factor : K) (traj : Trajectory K) (j i : Nat) :
    (traj.rescale factor).segment j i = (traj.segment j i).rescale factor := by
  have entry := List.getD_map (n := i) (traj.segments.getD j []) default (Segment.rescale factor)
  rw [Segment.rescale_default] at entry
  rw [Trajectory.segment, rescale_row, entry]
  rfl

section Fit
variable {factor : K} (nonzero : factor ≠ 0) (nWp : Nat) (durationS : K) (y : Nat → K)

theorem tKnot_rescale (factor : K) (i : Nat) : tKnot nWp (factor * durationS) i = factor * tKnot nWp durationS i := by
  rw [tKnot, tKnot, mul_div_assoc, mul_assoc]

theorem segH_rescale (factor : K) (i : Nat) : segH nWp (factor * durationS) i = factor * segH nWp durationS i := by
  rw [segH, segH, tKnot_rescale, tKnot_rescale, mul_sub]

theorem alpha_rescale (factor : K) (i : Nat) :
    alpha nWp (factor * durationS) y i = alpha nWp durationS y i / factor := by
  simp only [alpha, segH_rescale]
  split
  · rw [div_mul_eq_div_div_swap, div_mul_eq_div_div_swap]
    ring
  · rw [zero_div]

theorem pivot_rescale {nWp i : Nat} (inside : i + 1 < nWp - 1)
    (ratio : (sweep nWp (factor * durationS) y i).mu = (sweep nWp durationS y i).mu) :
    (sweep nWp (factor * durationS) y (i + 1)).l = factor * (sweep nWp durationS y (i + 1)).l := by
  rw [sweep_succ _ y inside, sweep_succ _ y inside]
  simp only [ratio, segH_rescale]
  ring

include nonzero

theorem sweep_rescale (i : Nat) :
    (sweep nWp (factor * durationS) y i).mu = (sweep nWp durationS y i).mu ∧
      (sweep nWp (factor * durationS) y i).z = (sweep nWp durationS y i).z / factor ^ 2 := by
  induction i with
  | zero => exact ⟨rfl, (zero_div _).symm⟩
  | succ i ih =>
    obtain ⟨ratio, eliminated⟩ := ih
    by_cases inside : i + 1 < nWp - 1
    · have pivot := pivot_rescale durationS y inside ratio
      constructor
      · rw [(sweep_eliminates nWp _ y).mu i inside, (sweep_eliminates nWp _ y).mu i inside, pivot]
        dsimp only [splineSystem]
        rw [segH_rescale, mul_div_mul_left _ _ nonzero]
      · rw [(sweep_eliminates nWp _ y).z i inside, (sweep_eliminates nWp _ y).z i inside, pivot, eliminated]
        dsimp only [splineSystem]
        rw [segH_rescale, alpha_rescale]
        field_simp
    · rw [sweep, sweep, if_neg inside, if_neg inside]
      exact ⟨rfl, (zero_div _).symm⟩

theorem backSub_rescale (k : Nat) :
    backSub nWp (factor * durationS) y k = backSub nWp durationS y k / factor ^ 2 := by
  induction k with
  | zero => exact (zero_div _).symm
  | succ k ih =>
    obtain ⟨ratio, eliminated⟩ := sweep_rescale nonzero nWp durationS y (nWp - 2 - k)
    rw [backSub, backSub, ratio, eliminated, ih]
    ring

theorem fitSegment_rescale (i : Nat) :
    fitSegment nWp (factor * durationS) y i = (fitSegment nWp durationS y i).rescale factor := by
  have m (i : Nat) : secondDeriv nWp (factor * durationS) y i = secondDeriv nWp durationS y i / factor ^ 2 :=
    backSub_rescale nonzero nWp durationS y _
  have entries (a b c d : K) : (#v[a, b, c, d].mapIdx fun k coeff => coeff / factor ^ k) =
      #v[a, b / factor, c / factor ^ 2, d / factor ^ 3] := by
    simp
  simp only [fitSegment, Segment.rescale, tKnot_rescale, segH_rescale, m, entries]
  congr 3
  field_simp

end Fit

/-- A fit for a scaled duration is the fit for the duration, rescaled. -/
theorem fitCubicSpline_rescale {factor : K} (nonzero : factor ≠ 0) (waypoints : List (List K)) (durationS : K) :
    fitCubicSpline waypoints (factor * durationS) = (fitCubicSpline waypoints durationS).rescale factor := by
  have empty : (Trajectory.empty : Trajectory K) = Trajectory.empty.rescale factor := by
    simp [Trajectory.empty, Trajectory.rescale]
  by_cases few : waypoints.length < 2
  · rwa [fitCubicSpline_empty _ _ (Or.inl few), fitCubicSpline_empty _ _ (Or.inl few)]
  · by_cases jointless : (waypoints.getD 0 []).isEmpty
    · rw [List.isEmpty_iff] at jointless
      rwa [fitCubicSpline_empty _ _ (Or.inr jointless), fitCubicSpline_empty _ _ (Or.inr jointless)]
    · simp only [fitCubicSpline, if_neg few, if_neg jointless, Trajectory.rescale, List.map_map]
      congr 1
      apply List.map_congr_left
      intro j _
      rw [Function.comp_apply, List.map_map]
      apply List.map_congr_left
      intro i _
      exact fitSegment_rescale nonzero _ _ _ i

variable [LinearOrder K] [IsStrictOrderedRing K]

theorem Trajectory.rescale_eval {factor : K} (positive : 0 < factor) (traj : Trajectory K) (t : K) :
    (traj.rescale factor).eval (factor * t) = traj.eval t := by
  have duration : (traj.rescale factor).durationS = factor * traj.durationS := rfl
  have numDofs : (traj.rescale factor).numDofs = traj.numDofs := rfl
  have start (j i : Nat) : ((traj.rescale factor).segment j i).tStart = factor * (traj.segment j i).tStart := by
    rw [rescale_segment]
    rfl
  have clamped : max 0 (min (factor * t) (factor * traj.durationS)) = factor * max 0 (min t traj.durationS) := by
    rw [← mul_min_of_nonneg _ _ positive.le, mul_max_of_nonneg _ _ positive.le, mul_zero]
  have search (t : K) : (traj.rescale factor).segIdx (factor * t) = traj.segIdx t := by
    simp only [Trajectory.segIdx, start, mul_le_mul_iff_right₀ positive, mul_lt_mul_iff_right₀ positive]
    rfl
  have idle : ((traj.rescale factor).segments.isEmpty || ((traj.rescale factor).segments.getD 0 []).isEmpty) =
      (traj.segments.isEmpty || (traj.segments.getD 0 []).isEmpty) := by
    rw [rescale_row, List.isEmpty_map]
    simp [Trajectory.rescale]
  simp only [Trajectory.eval, idle, duration, numDofs, clamped, search]
  congr 1
  apply List.map_congr_left
  intro j _
  rw [start, ← mul_sub, rescale_segment, Segment.rescale_at positive.ne']

/-- Pivots and knots scale with the duration and the ratios stay, so the same path is run through,
faster or slower. -/
theorem fitCubicSpline_same_path (waypoints : List (List K)) {first second : K} (first_positive : 0 < first)
    (second_positive : 0 < second) (s : K) :
    (fitCubicSpline waypoints first).eval (s * first) = (fitCubicSpline waypoints second).eval (s * second) := by
  have positive : 0 < first / second := div_pos first_positive second_positive
  have duration : first = first / second * second := (div_mul_cancel₀ _ second_positive.ne').symm
  have time : s * first = first / second * (s * second) := by rw [mul_left_comm, ← duration]
  calc (fitCubicSpline waypoints first).eval (s * first)
    _ = ((fitCubicSpline waypoints second).rescale (first / second)).eval (first / second * (s * second)) := by
        rw [← fitCubicSpline_rescale positive.ne', ← duration, ← time]
    _ = (fitCubicSpline waypoints second).eval (s * second) := Trajectory.rescale_eval positive _ _

theorem upAndDown_same_path :
    (fitCubicSpline [[0], [1], [(0 : ℚ)]] 2).eval (1 / 3 * 2) = (fitCubicSpline [[0], [1], [0]] 5).eval (1 / 3 * 5) :=
  fitCubicSpline_same_path [[0], [1], [0]] (by decide +kernel) (by decide +kernel) (1 / 3)

end RoboticsRt

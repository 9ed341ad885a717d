import RoboticsRt.Library.Piecewise
import RoboticsRt.Proofs.JointLimits

/-! How fast a fitted curve moves. The cubic takes each leg at most half as fast again as a
straight line through the longest one would, so a joint's longest step between waypoints limits
its speed at every time. -/

namespace RoboticsRt
open Piecewise

variable {K : Type} [Field K]

/-- The derivative of `piece` in `s`. -/
def slope (y N : Nat → K) (i : Nat) (s : K) : K :=
  y (i + 1) - y i - (((3 : ℕ) * (1 - s) ^ 2 - 1) * N i + (1 - (3 : ℕ) * s ^ 2) * N (i + 1)) / (6 : ℕ)

theorem slope_eq (y N : Nat → K) (i : Nat) (s : K) :
    slope y N i s = y (i + 1) - y i - ((2 - 6 * s + 3 * s ^ 2) * N i + (1 - 3 * s ^ 2) * N (i + 1)) / 6 := by
  rw [slope, Nat.cast_ofNat, Nat.cast_ofNat]
  ring

theorem piece_change [CharZero K] (y N : Nat → K) (i : Nat) (a b : K) :
    piece y N i b - piece y N i a = (b - a) * ((slope y N i a + 4 * slope y N i ((a + b) / 2) + slope y N i b) / 6) := by
  rw [piece_eq, piece_eq, slope_eq, slope_eq, slope_eq]
  ring

variable [LinearOrder K]

/-- No step between neighbouring waypoints is longer than `step`. -/
def StepsWithin (n : Nat) (y : Nat → K) (step : K) : Prop := ∀ i < n, |y (i + 1) - y i| ≤ step

instance (n : Nat) (y : Nat → K) (step : K) : Decidable (StepsWithin n y step) :=
  inferInstanceAs (Decidable (∀ i < n, |y (i + 1) - y i| ≤ step))

variable [IsStrictOrderedRing K] {n : Nat} {y N : Nat → K} {step : K}

theorem Moments.abs_le_steps (moments : Moments n y N) (steps : StepsWithin n y step) (nonneg : 0 ≤ step) {i : Nat}
    (inside : i ≤ n) : |N i| ≤ 3 * step := by
  let system : Tridiagonal.System K := ⟨fun _ => 1, fun _ => 4, fun _ => 1, fun i => N (i - 1) + 4 * N i + N (i + 1)⟩
  have solves : system.Solves n N := ⟨moments.first, moments.last, fun i _ => by simp [system]⟩
  apply solves.abs_le (fun _ => zero_le_one) (fun _ => zero_le_one) _ (two_pos : (0 : K) < 2) (by linarith) _ inside
  · intro _
    norm_num [system]
  · intro i interior
    have before := abs_le.mp (steps i (by omega))
    have after := abs_le.mp (steps (i + 1) interior)
    simp only [system, Nat.add_sub_cancel]
    rw [moments.row i interior, abs_le]
    constructor <;> linarith [before.1, before.2, after.1, after.2]

/-! The slope of one piece, from the rows of the moments at its ends. -/

section Weights
variable {s c u v first second third : K}

theorem weighted_le (centre : |first| ≤ step) (left : |second| ≤ 6 * step) (right : |third| ≤ 6 * step)
    (weights : |c| + 6 * |u| + 6 * |v| ≤ 3 / 2) : |c * first + u * second + v * third| ≤ 3 / 2 * step := by
  have nonneg : 0 ≤ step := (abs_nonneg _).trans centre
  calc |c * first + u * second + v * third|
    _ ≤ |c * first| + |u * second| + |v * third| := abs_add_three _ _ _
    _ = |c| * |first| + |u| * |second| + |v| * |third| := by rw [abs_mul, abs_mul, abs_mul]
    _ ≤ |c| * step + |u| * (6 * step) + |v| * (6 * step) := by
        exact add_le_add (add_le_add (mul_le_mul_of_nonneg_left centre (abs_nonneg _))
          (mul_le_mul_of_nonneg_left left (abs_nonneg _))) (mul_le_mul_of_nonneg_left right (abs_nonneg _))
    _ = (|c| + 6 * |u| + 6 * |v|) * step := by ring
    _ ≤ 3 / 2 * step := mul_le_mul_of_nonneg_right weights nonneg

theorem inner_weights (start : 0 ≤ s) (final : s ≤ 1) :
    |5 / 6 + s - s ^ 2| + 6 * |(7 - 24 * s + 15 * s ^ 2) / 90| + 6 * |(2 + 6 * s - 15 * s ^ 2) / 90| ≤ 3 / 2 := by
  have area : s ^ 2 ≤ s := by nlinarith
  have quarter := area_le s
  rw [abs_of_nonneg (show (0 : K) ≤ 5 / 6 + s - s ^ 2 by linarith)]
  rcases abs_cases ((7 - 24 * s + 15 * s ^ 2) / 90) with ⟨left, _⟩ | ⟨left, _⟩ <;>
    rcases abs_cases ((2 + 6 * s - 15 * s ^ 2) / 90) with ⟨right, _⟩ | ⟨right, _⟩ <;>
    rw [left, right]
  · linarith [sq_nonneg s]
  · linarith
  · linarith
  · linarith [sq_nonneg (1 - s)]

theorem outer_weights {w : K} (low : -1 ≤ w) (high : w ≤ 2) : |1 - w / 8| + 6 * |w / 24| + 6 * |(0 : K)| ≤ 3 / 2 := by
  rw [abs_zero, mul_zero, add_zero, abs_of_nonneg (show (0 : K) ≤ 1 - w / 8 by linarith)]
  rcases abs_cases (w / 24) with ⟨same, _⟩ | ⟨same, _⟩ <;> rw [same] <;> linarith

end Weights

theorem Moments.slope_le (moments : Moments n y N) (steps : StepsWithin n y step) {i : Nat} (inside : i < n) {s : K}
    (start : 0 ≤ s) (final : s ≤ 1) : |slope y N i s| ≤ 3 / 2 * step := by
  have nonneg : 0 ≤ step := (abs_nonneg _).trans (steps i inside)
  have still : |(0 : K)| ≤ 6 * step := by
    rw [abs_zero]
    linarith
  -- what the row of a waypoint leaves for the piece beside it
  have remainder {k : Nat} (k_inside : k < n) {m : Nat} (m_inside : m ≤ n) :
      |3 * (y (k + 1) - y k) + N m| ≤ 6 * step ∧ |3 * (y (k + 1) - y k) - N m| ≤ 6 * step := by
    have leg := abs_le.mp (steps k k_inside)
    have moment := abs_le.mp (moments.abs_le_steps steps nonneg m_inside)
    constructor <;> rw [abs_le] <;> constructor <;> linarith [leg.1, leg.2, moment.1, moment.2]
  have low : -2 ≤ 1 - 3 * s ^ 2 ∧ 1 - 3 * s ^ 2 ≤ 1 := ⟨by nlinarith, by nlinarith⟩
  have high : -1 ≤ 2 - 6 * s + 3 * s ^ 2 ∧ 2 - 6 * s + 3 * s ^ 2 ≤ 2 := ⟨by nlinarith, by nlinarith⟩
  rcases Nat.eq_or_lt_of_le inside with last | inner
  · have flat : N (i + 1) = 0 := (congrArg N last).trans moments.last
    cases i with
    | zero =>
      have line : slope y N 0 s = 1 * (y 1 - y 0) + 0 * 0 + 0 * 0 := by
        rw [slope_eq, moments.first, flat]
        ring
      rw [line]
      exact weighted_le (steps 0 inside) still still (by norm_num)
    | succ i =>
      have row := moments.row i (by omega)
      have combined : slope y N (i + 1) s = (1 - (2 - 6 * s + 3 * s ^ 2) / 8) * (y (i + 2) - y (i + 1)) +
          (2 - 6 * s + 3 * s ^ 2) / 24 * (3 * (y (i + 1) - y i) + N i) + 0 * 0 := by
        rw [slope_eq, flat]
        linear_combination -(2 - 6 * s + 3 * s ^ 2) / 24 * (row - flat)
      rw [combined]
      exact weighted_le (steps (i + 1) inside) (remainder (by omega) (by omega)).1 still (outer_weights high.1 high.2)
  · have row := moments.row i inner
    cases i with
    | zero =>
      have combined : slope y N 0 s = (1 - -(1 - 3 * s ^ 2) / 8) * (y 1 - y 0) +
          -(1 - 3 * s ^ 2) / 24 * (3 * (y 2 - y 1) - N 2) + 0 * 0 := by
        rw [slope_eq, moments.first]
        linear_combination -(1 - 3 * s ^ 2) / 24 * (row - moments.first)
      rw [combined]
      exact weighted_le (steps 0 inside) (remainder inner inner).2 still (outer_weights (by linarith) (by linarith))
    | succ i =>
      have behind := moments.row i (by omega)
      have combined : slope y N (i + 1) s = (5 / 6 + s - s ^ 2) * (y (i + 2) - y (i + 1)) +
          (7 - 24 * s + 15 * s ^ 2) / 90 * (3 * (y (i + 1) - y i) + N i) +
          -((2 + 6 * s - 15 * s ^ 2) / 90) * (3 * (y (i + 3) - y (i + 2)) - N (i + 3)) := by
        rw [slope_eq]
        linear_combination -(7 - 24 * s + 15 * s ^ 2) / 90 * behind - (2 + 6 * s - 15 * s ^ 2) / 90 * row
      rw [combined]
      apply weighted_le (steps (i + 1) inside) (remainder (by omega) (by omega)).1 (remainder (by omega) (by omega)).2
      rw [abs_neg]
      exact inner_weights start final

theorem Moments.limited (moments : Moments n y N) (steps : StepsWithin n y step) {i : Nat} (inside : i < n) :
    Limited (3 / 2 * step) (piece y N i) 0 1 :=
  Limited.cubic (piece_change y N i) fun _ start final => moments.slope_le steps inside start final

/-! The fit. -/

variable {waypoints : List (List K)} {dofs j : Nat} {durationS : K}

def moments (waypoints : List (List K)) (durationS : K) (j : Nat) (i : Nat) : K :=
  segH waypoints.length durationS 0 ^ 2 * secondDeriv waypoints.length durationS (fun i => waypoint waypoints i j) i

theorem fitCubicSpline_coordinate (shape : Rectangular waypoints dofs) (positive : 0 < durationS) (dof : j < dofs) {i : Nat}
    (inside : i < waypoints.length - 1) {t : K} (started : tKnot waypoints.length durationS i ≤ t)
    (ended : t ≤ tKnot waypoints.length durationS (i + 1)) :
    ((fitCubicSpline waypoints durationS).eval t).getD j 0 =
      piece (fun i => waypoint waypoints i j) (moments waypoints durationS j) i
        ((t - tKnot waypoints.length durationS i) / segH waypoints.length durationS 0) := by
  have length := segH_pos shape.enough positive 0
  have first : 0 ≤ t := (tKnot_zero waypoints.length durationS).symm.trans_le
    ((tKnot_mono positive.le i.zero_le).trans started)
  have within : t ≤ durationS := ended.trans
    ((tKnot_mono positive.le (by omega)).trans_eq (tKnot_last shape.enough durationS))
  by_cases current : i = waypoints.length - 2 ∨ t < tKnot waypoints.length durationS (i + 1)
  · rw [fitCubicSpline_eval shape positive first within inside started current]
    simp only [List.getD_eq_getElem?_getD, List.getElem?_map, List.getElem?_range dof, Option.map_some, Option.getD_some]
    exact fitSegment_at_eq_piece _ _ _ length.ne'
  · -- at the knot the next segment is evaluated
    obtain ⟨_, later⟩ := not_or.mp current
    obtain rfl := le_antisymm ended (not_lt.mp later)
    have next : i + 1 < waypoints.length := by omega
    have span : tKnot waypoints.length durationS (i + 1) - tKnot waypoints.length durationS i =
        segH waypoints.length durationS 0 := by
      rw [segH_eq, ← segH_eq waypoints.length durationS i, segH]
    have entry : waypoint waypoints (i + 1) j = waypoints[i + 1].getD j 0 := by
      rw [waypoint, List.getD_eq_getElem _ _ next]
    rw [fitCubicSpline_eval_knot shape positive next, span, div_self length.ne', piece_eq, ← entry]
    ring

theorem fitCubicSpline_limited (shape : Rectangular waypoints dofs) (positive : 0 < durationS) (dof : j < dofs)
    {step : K} (steps : StepsWithin (waypoints.length - 1) (fun i => waypoint waypoints i j) step) :
    Limited (3 / 2 * step / segH waypoints.length durationS 0)
      (fun t => ((fitCubicSpline waypoints durationS).eval t).getD j 0) 0 durationS := by
  have length := segH_pos shape.enough positive 0
  have fitted := secondDeriv_moments shape.enough positive fun i => waypoint waypoints i j
  have each : ∀ i < waypoints.length - 1, Limited (3 / 2 * step / segH waypoints.length durationS 0)
      (fun t => ((fitCubicSpline waypoints durationS).eval t).getD j 0)
      (tKnot waypoints.length durationS i) (tKnot waypoints.length durationS (i + 1)) := by
    intro i inside
    have next : tKnot waypoints.length durationS (i + 1) =
        tKnot waypoints.length durationS i + segH waypoints.length durationS 0 := by
      rw [segH_eq, ← segH_eq waypoints.length durationS i, segH, add_sub_cancel]
    have limited := (fitted.limited steps inside).rescale (tKnot waypoints.length durationS i) length
    rw [← next] at limited
    exact limited.congr fun t started ended => fitCubicSpline_coordinate shape positive dof inside started ended
  have whole := Limited.pieces each
  rwa [tKnot_zero, tKnot_last shape.enough] at whole

/-- The moments are small where the steps are, so no piece is steeper than one and a half times
the longest step. Across knots, where the velocity may jump, and outside the duration the bound
adds up. -/
theorem speed_bounded (shape : Rectangular waypoints dofs) (positive : 0 < durationS) (dof : j < dofs) {step : K}
    (steps : StepsWithin (waypoints.length - 1) (fun i => waypoint waypoints i j) step) (a b : K) :
    |((fitCubicSpline waypoints durationS).eval b).getD j 0 - ((fitCubicSpline waypoints durationS).eval a).getD j 0| ≤
      3 / 2 * step / segH waypoints.length durationS 0 * |b - a| := by
  have enough := shape.enough
  have nonneg : 0 ≤ step := (abs_nonneg _).trans (steps 0 (by omega))
  have rate : 0 ≤ 3 / 2 * step / segH waypoints.length durationS 0 :=
    div_nonneg (by linarith) (segH_pos enough positive 0).le
  have clamped := (fitCubicSpline_limited shape positive dof steps).clamped positive.le rate a b
  have duration : (fitCubicSpline waypoints durationS).durationS = durationS := by rw [fitCubicSpline_eq shape]
  rw [Trajectory.eval_clamped _ a, Trajectory.eval_clamped _ b, duration]
  exact clamped

theorem upAndDown_speed : |((fitCubicSpline [[0], [1], [(0 : ℚ)]] 2).eval (5 / 4)).getD 0 0 -
    ((fitCubicSpline [[0], [1], [(0 : ℚ)]] 2).eval (-1)).getD 0 0| ≤ 3 / 2 * 1 / segH 3 2 0 * |5 / 4 - -1| := by
  have shape : Rectangular [[0], [1], [(0 : ℚ)]] 1 := ⟨by decide, by decide, by decide⟩
  exact speed_bounded shape (by decide +kernel) (by decide) (by decide +kernel) (-1) (5 / 4)

end RoboticsRt

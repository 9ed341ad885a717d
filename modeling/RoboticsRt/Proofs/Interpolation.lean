import RoboticsRt.Proofs.Spline

/-! A fitted trajectory interpolates its waypoints and has no jumps in position. -/

namespace RoboticsRt

variable {K : Type} [Field K] [LinearOrder K]

structure Interpolates (traj : Trajectory K) (waypoints : List (List K)) (durationS : K) : Prop where
  -- the segment `eval` selects is one of the trajectory's and lasts at `t`, for every degree of freedom
  selected : ∀ t, 0 ≤ t → t ≤ durationS → traj.segIdx t < traj.numSegments ∧ ∀ j < traj.numDofs,
    (traj.segment j (traj.segIdx t)).tStart ≤ t ∧
      t ≤ (traj.segment j (traj.segIdx t)).tStart + (traj.segment j (traj.segIdx t)).h
  knots : ∀ i (inside : i < waypoints.length),
    traj.eval (i * durationS / ((waypoints.length - 1 : Nat) : K)) = waypoints[i]
  continuous : ∀ j < traj.numDofs, ∀ i, i + 1 < traj.numSegments →
    let knot := (traj.segment j (i + 1)).tStart
    (traj.segment j i).at (knot - (traj.segment j i).tStart) = (traj.segment j (i + 1)).at (knot - knot)
  before : ∀ t ≤ 0, waypoints.head? = some (traj.eval t)
  after : ∀ t ≥ durationS, waypoints.getLast? = some (traj.eval t)

variable [IsStrictOrderedRing K] {waypoints : List (List K)} {dofs : Nat} {durationS : K}

theorem fitCubicSpline_selects (shape : Rectangular waypoints dofs) (positive : 0 < durationS) {t : K} (nonneg : 0 ≤ t)
    (within : t ≤ durationS) :
    ∃ i < waypoints.length - 1, (fitCubicSpline waypoints durationS).segIdx t = i ∧
      tKnot waypoints.length durationS i ≤ t ∧
        t ≤ tKnot waypoints.length durationS i + segH waypoints.length durationS i := by
  obtain ⟨i, inside, started, ended, current⟩ := exists_segment shape.enough nonneg within
  refine ⟨i, inside, fitCubicSpline_segIdx shape positive.le inside started current, started, ?_⟩
  rw [segH, add_sub_cancel]
  exact ended

theorem fitCubicSpline_interpolates (shape : Rectangular waypoints dofs) (positive : 0 < durationS) :
    Interpolates (fitCubicSpline waypoints durationS) waypoints durationS := by
  have duration : (fitCubicSpline waypoints durationS).durationS = durationS := by rw [fitCubicSpline_eq shape]
  have numDofs : (fitCubicSpline waypoints durationS).numDofs = dofs := by rw [fitCubicSpline_eq shape]
  have numSegments : (fitCubicSpline waypoints durationS).numSegments = waypoints.length - 1 := by
    rw [fitCubicSpline_eq shape]
  constructor
  case selected =>
    intro t nonneg within
    obtain ⟨i, inside, selected, started, ended⟩ := fitCubicSpline_selects shape positive nonneg within
    rw [selected, numSegments, numDofs]
    refine ⟨inside, fun j dof => ?_⟩
    rw [fitCubicSpline_segment shape dof inside]
    exact ⟨started, ended⟩
  case knots =>
    intro i inside
    have time : (i : K) * durationS / ((waypoints.length - 1 : Nat) : K) = tKnot waypoints.length durationS i := by
      rw [tKnot, mul_div_assoc, mul_comm]
    rw [time]
    exact fitCubicSpline_eval_knot shape positive inside
  case continuous =>
    rw [numDofs, numSegments]
    intro j dof i inside
    have apart := (segH_pos shape.enough positive i).ne'
    rw [fitCubicSpline_segment shape dof inside, fitCubicSpline_segment shape dof (by omega)]
    dsimp only
    rw [sub_self, fitSegment_start]
    exact fitSegment_end waypoints.length durationS (fun i => waypoint waypoints i j) i apart
  case before =>
    intro t early
    have clamped : max 0 (min t (fitCubicSpline waypoints durationS).durationS) = 0 := by
      rw [duration, max_eq_left ((min_le_left _ _).trans early)]
    rw [Trajectory.eval_clamped, clamped]
    exact fitCubicSpline_eval_zero shape positive
  case after =>
    intro t late
    have clamped : max 0 (min t (fitCubicSpline waypoints durationS).durationS) = durationS := by
      rw [duration, min_eq_right late, max_eq_right positive.le]
    rw [Trajectory.eval_clamped, clamped]
    exact fitCubicSpline_eval_duration shape positive

theorem upAndDown_interpolates :
    Interpolates (fitCubicSpline [[0], [1], [(0 : ℚ)]] 2) [[0], [1], [0]] 2 := by
  have shape : Rectangular [[0], [1], [(0 : ℚ)]] 1 := ⟨by decide, by decide, by decide⟩
  exact fitCubicSpline_interpolates shape (by decide +kernel)

end RoboticsRt

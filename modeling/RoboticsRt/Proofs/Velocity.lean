import RoboticsRt.Proofs.SecondDeriv

/-! Velocities of a fitted trajectory. The right-hand side of the fit belongs to `M / 2`,
the coefficients take `M` for the second derivative itself: at every knot the velocity
jumps by half of the jump that straight lines between the waypoints would have. -/

namespace RoboticsRt

variable {K : Type} [Field K]

def Trajectory.VelocityContinuous (traj : Trajectory K) : Prop :=
  ∀ j < traj.numDofs, ∀ i, i + 1 < traj.numSegments →
    (traj.segment j i).velocity (traj.segment j i).h = (traj.segment j (i + 1)).velocity 0

/-- The natural cubic spline through the waypoints. -/
structure Trajectory.NaturalSpline (traj : Trajectory K) (waypoints : List (List K)) : Prop where
  starts : ∀ j < traj.numDofs, ∀ i < traj.numSegments, (traj.segment j i).at 0 = waypoint waypoints i j
  ends : ∀ j < traj.numDofs, ∀ i < traj.numSegments,
    (traj.segment j i).at (traj.segment j i).h = waypoint waypoints (i + 1) j
  velocity : traj.VelocityContinuous
  acceleration : ∀ j < traj.numDofs, ∀ i, i + 1 < traj.numSegments →
    (traj.segment j i).acceleration (traj.segment j i).h = (traj.segment j (i + 1)).acceleration 0
  first : ∀ j < traj.numDofs, (traj.segment j 0).acceleration 0 = 0
  last : ∀ j < traj.numDofs,
    (traj.segment j (traj.numSegments - 1)).acceleration (traj.segment j (traj.numSegments - 1)).h = 0

def EvenlySpaced (waypoints : List (List K)) (dofs : Nat) : Prop :=
  ∀ j < dofs, ∀ i, i + 2 < waypoints.length →
    waypoint waypoints (i + 2) j - waypoint waypoints (i + 1) j =
      waypoint waypoints (i + 1) j - waypoint waypoints i j

section Pieces
variable (nWp : Nat) (durationS : K) (y : Nat → K) (i : Nat)

theorem fitSegment_h : (fitSegment nWp durationS y i).h = segH nWp durationS i := rfl

theorem fitSegment_velocity_start :
    (fitSegment nWp durationS y i).velocity 0 = (y (i + 1) - y i) * (1 / segH nWp durationS i)
      - segH nWp durationS i * (2 * secondDeriv nWp durationS y i + secondDeriv nWp durationS y (i + 1)) / 6 := by
  simp [Segment.velocity, fitSegment]

theorem fitSegment_velocity_end [CharZero K] (apart : segH nWp durationS i ≠ 0) :
    (fitSegment nWp durationS y i).velocity (segH nWp durationS i) = (y (i + 1) - y i) * (1 / segH nWp durationS i)
      + segH nWp durationS i * (secondDeriv nWp durationS y i + 2 * secondDeriv nWp durationS y (i + 1)) / 6 := by
  have cubic (h rise m next : K) (apart : h ≠ 0) :
      rise * (1 / h) - h * (2 * m + next) / 6 + 2 * (m / 2) * h + 3 * ((next - m) / (6 * h)) * h * h =
        rise * (1 / h) + h * (m + 2 * next) / 6 := by
    field_simp
    ring
  exact cubic _ _ _ _ apart

theorem fitSegment_acceleration_start [CharZero K] :
    (fitSegment nWp durationS y i).acceleration 0 = secondDeriv nWp durationS y i := by
  have half (m : K) : 2 * (m / 2) + 6 * 0 = m := by ring
  simpa [Segment.acceleration, fitSegment] using half _

theorem fitSegment_acceleration_end [CharZero K] (apart : segH nWp durationS i ≠ 0) :
    (fitSegment nWp durationS y i).acceleration (segH nWp durationS i) = secondDeriv nWp durationS y (i + 1) := by
  have cubic (h m next : K) (apart : h ≠ 0) : 2 * (m / 2) + 6 * ((next - m) / (6 * h)) * h = next := by
    field_simp
    ring
  exact cubic _ _ _ apart

end Pieces

variable [LinearOrder K] [IsStrictOrderedRing K]

/-- At an interior knot the velocity jumps by half the second difference over `h`. -/
theorem velocity_jump {nWp : Nat} (enough : 2 ≤ nWp) {durationS : K} (positive : 0 < durationS) (y : Nat → K) {i : Nat}
    (inside : i + 2 < nWp) :
    2 * segH nWp durationS i *
      ((fitSegment nWp durationS y (i + 1)).velocity 0 - (fitSegment nWp durationS y i).velocity (segH nWp durationS i)) =
      y (i + 2) - 2 * y (i + 1) + y i := by
  have apart := (segH_pos enough positive i).ne'
  have row := secondDeriv_row enough positive y inside
  dsimp only at row
  rw [fitSegment_velocity_start, fitSegment_velocity_end _ _ _ _ apart]
  rw [segH_eq] at apart
  rw [segH_eq, segH_eq]
  generalize durationS / ((nWp - 1 : Nat) : K) = h at row apart ⊢
  field_simp
  linear_combination -2 * row

variable {waypoints : List (List K)} {dofs : Nat} {durationS : K}

theorem velocity_continuous_iff (shape : Rectangular waypoints dofs) (positive : 0 < durationS) :
    (fitCubicSpline waypoints durationS).VelocityContinuous ↔ EvenlySpaced waypoints dofs := by
  have numDofs : (fitCubicSpline waypoints durationS).numDofs = dofs := by rw [fitCubicSpline_eq shape]
  have numSegments : (fitCubicSpline waypoints durationS).numSegments = waypoints.length - 1 := by
    rw [fitCubicSpline_eq shape]
  rw [Trajectory.VelocityContinuous, EvenlySpaced, numDofs, numSegments]
  apply forall₂_congr
  intro j dof
  apply forall_congr'
  intro i
  rw [Nat.lt_sub_iff_add_lt]
  apply forall_congr'
  intro inside
  have knot := velocity_jump shape.enough positive (fun i => waypoint waypoints i j) inside
  have apart : 2 * segH waypoints.length durationS i ≠ 0 := (mul_pos two_pos (segH_pos shape.enough positive i)).ne'
  rw [fitCubicSpline_segment shape dof (by omega), fitCubicSpline_segment shape dof (by omega), fitSegment_h]
  constructor
  · intro same
    rw [same, sub_self, mul_zero] at knot
    linear_combination -knot
  · intro even
    have still : 2 * segH waypoints.length durationS i * _ = 0 := knot.trans (by linear_combination even)
    exact (sub_eq_zero.mp ((mul_eq_zero.mp still).resolve_left apart)).symm

theorem natural_of_velocity (shape : Rectangular waypoints dofs) (positive : 0 < durationS)
    (continuous : (fitCubicSpline waypoints durationS).VelocityContinuous) :
    (fitCubicSpline waypoints durationS).NaturalSpline waypoints := by
  have numDofs : (fitCubicSpline waypoints durationS).numDofs = dofs := by rw [fitCubicSpline_eq shape]
  have numSegments : (fitCubicSpline waypoints durationS).numSegments = waypoints.length - 1 := by
    rw [fitCubicSpline_eq shape]
  have enough := shape.enough
  have apart (i : Nat) : segH waypoints.length durationS i ≠ 0 := (segH_pos enough positive i).ne'
  have fitted {j i : Nat} (dof : j < dofs) (inside : i < waypoints.length - 1) :
      (fitCubicSpline waypoints durationS).segment j i = _ := fitCubicSpline_segment shape dof inside
  refine ⟨?_, ?_, continuous, ?_, ?_, ?_⟩
  · rw [numDofs, numSegments]
    intro j dof i inside
    rw [fitted dof inside, fitSegment_start]
  · rw [numDofs, numSegments]
    intro j dof i inside
    rw [fitted dof inside, fitSegment_h, fitSegment_end _ _ _ _ (apart i)]
  · rw [numDofs, numSegments]
    intro j dof i inside
    rw [fitted dof (by omega), fitted dof inside, fitSegment_h, fitSegment_acceleration_end _ _ _ _ (apart i),
      fitSegment_acceleration_start]
  · rw [numDofs]
    intro j dof
    rw [fitted dof (by omega), fitSegment_acceleration_start, (secondDeriv_solves enough positive _).first]
  · rw [numDofs, numSegments]
    intro j dof
    have last : waypoints.length - 1 - 1 + 1 = waypoints.length - 1 := by omega
    rw [fitted dof (by omega), fitSegment_h, fitSegment_acceleration_end _ _ _ _ (apart _), last, secondDeriv_last]

/-- The right-hand side is scaled for half the second derivative and used as the whole one, so the
velocity jumps at a knot by half the second difference over `h`. Only where all steps between
waypoints are equal there is nothing to bend. -/
theorem natural_spline_iff (shape : Rectangular waypoints dofs) (positive : 0 < durationS) :
    ((fitCubicSpline waypoints durationS).VelocityContinuous ↔ EvenlySpaced waypoints dofs) ∧
      ((fitCubicSpline waypoints durationS).NaturalSpline waypoints ↔ EvenlySpaced waypoints dofs) := by
  have continuous := velocity_continuous_iff shape positive
  refine ⟨continuous, fun natural => continuous.mp natural.velocity, fun even => ?_⟩
  exact natural_of_velocity shape positive (continuous.mpr even)

/-- One joint up and down again: it arrives at the knot at 1/2 and leaves it at -1/2. -/
theorem upAndDown_jumps : Rectangular [[0], [1], [(0 : ℚ)]] 1 ∧ (0 : ℚ) < 2 ∧
    ¬ (fitCubicSpline [[0], [1], [(0 : ℚ)]] 2).VelocityContinuous := by
  have shape : Rectangular [[0], [1], [(0 : ℚ)]] 1 := ⟨by decide, by decide, by decide⟩
  refine ⟨shape, by decide +kernel, fun continuous => ?_⟩
  have even := (velocity_continuous_iff shape (by decide +kernel)).mp continuous 0 (by decide) 0 (by decide)
  exact absurd even (by decide +kernel)

theorem natural_spline_straight : (fitCubicSpline [[0], [1], [(2 : ℚ)]] 2).NaturalSpline [[0], [1], [2]] := by
  have shape : Rectangular [[0], [1], [(2 : ℚ)]] 1 := ⟨by decide, by decide, by decide⟩
  refine (natural_spline_iff shape (by decide +kernel)).2.mpr fun j dof i inside => ?_
  have only : j = 0 ∧ i = 0 := ⟨by omega, by simp at inside; omega⟩
  rw [only.1, only.2]
  decide +kernel

end RoboticsRt

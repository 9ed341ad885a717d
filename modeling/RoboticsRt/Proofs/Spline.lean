import RoboticsRt.Trajectory
import Mathlib.Algebra.Order.Field.Basic
import Mathlib.Data.List.GetD
import Mathlib.Tactic.FieldSimp
import Mathlib.Tactic.Linarith
import Mathlib.Tactic.Ring

/-! What a fitted trajectory is at its waypoints. Interpolation does not depend on the
second derivatives: any values of `M` give cubics that meet the waypoints. -/

namespace RoboticsRt

variable {K : Type} [Field K]

section Pieces

theorem tKnot_zero (nWp : Nat) (durationS : K) : tKnot nWp durationS 0 = 0 := by simp [tKnot]

theorem segH_eq (nWp : Nat) (durationS : K) (i : Nat) :
    segH nWp durationS i = durationS / ((nWp - 1 : Nat) : K) := by
  simp only [segH, tKnot, Nat.cast_add, Nat.cast_one]
  ring

theorem fitSegment_start (nWp : Nat) (durationS : K) (y : Nat → K) (i : Nat) :
    (fitSegment nWp durationS y i).at 0 = y i := by
  simp [Segment.at, fitSegment]

/-- The end of a piece is the next waypoint, whatever the second derivatives are. -/
theorem fitSegment_end [CharZero K] (nWp : Nat) (durationS : K) (y : Nat → K) (i : Nat)
    (apart : segH nWp durationS i ≠ 0) :
    (fitSegment nWp durationS y i).at (segH nWp durationS i) = y (i + 1) := by
  have cubic (h first last m next : K) (apart : h ≠ 0) :
      first + ((last - first) * (1 / h) - h * (2 * m + next) / 6) * h + m / 2 * h * h
        + (next - m) / (6 * h) * h * h * h = last := by
    field_simp
    ring
  exact cubic _ _ _ _ _ apart

end Pieces

/-- Waypoints `fitCubicSpline` turns into a rectangular array of segments. -/
structure Rectangular (waypoints : List (List K)) (dofs : Nat) : Prop where
  enough : 2 ≤ waypoints.length
  positive : 0 < dofs
  size : ∀ point ∈ waypoints, point.length = dofs

variable {waypoints : List (List K)} {dofs : Nat} {durationS : K}

omit [Field K] in
theorem Rectangular.first (shape : Rectangular waypoints dofs) : (waypoints.getD 0 []).length = dofs := by
  have inside : 0 < waypoints.length := Nat.lt_of_lt_of_le (by omega) shape.enough
  rw [List.getD_eq_getElem _ _ inside]
  exact shape.size _ (List.getElem_mem inside)

/-- The two inputs the fit rejects leave a trajectory without degrees of freedom. -/
theorem fitCubicSpline_empty (waypoints : List (List K)) (durationS : K)
    (rejected : waypoints.length < 2 ∨ waypoints.getD 0 [] = []) : fitCubicSpline waypoints durationS = .empty := by
  rcases rejected with few | jointless
  · rw [fitCubicSpline, if_pos few]
  · rw [fitCubicSpline]
    split
    · rfl
    · rw [if_pos (by rw [jointless]; rfl)]

theorem fitCubicSpline_eq (shape : Rectangular waypoints dofs) (durationS : K) :
    fitCubicSpline waypoints durationS =
      { durationS
        numDofs := dofs
        numSegments := waypoints.length - 1
        segments := (List.range dofs).map fun j =>
          (List.range (waypoints.length - 1)).map
            (fitSegment waypoints.length durationS fun i => waypoint waypoints i j) } := by
  have enough := shape.enough
  have first := shape.first
  have full : (waypoints.getD 0 []).isEmpty = false := by
    have positive := shape.positive
    rw [List.isEmpty_eq_false_iff, ← List.length_pos_iff]
    omega
  simp only [fitCubicSpline, full, first, if_neg (show ¬ waypoints.length < 2 by omega), Bool.false_eq_true,
    if_false]

theorem fitCubicSpline_segment (shape : Rectangular waypoints dofs) {j i : Nat} (dof : j < dofs)
    (inside : i < waypoints.length - 1) :
    (fitCubicSpline waypoints durationS).segment j i =
      fitSegment waypoints.length durationS (fun i => waypoint waypoints i j) i := by
  simp [fitCubicSpline_eq shape, Trajectory.segment, List.getD_eq_getElem?_getD, dof, inside]

theorem fitCubicSpline_tStart (shape : Rectangular waypoints dofs) {i : Nat}
    (inside : i < waypoints.length - 1) :
    ((fitCubicSpline waypoints durationS).segment 0 i).tStart = tKnot waypoints.length durationS i := by
  rw [fitCubicSpline_segment shape shape.positive inside]
  rfl

theorem waypoint_row (shape : Rectangular waypoints dofs) {i : Nat} (inside : i < waypoints.length) :
    (List.range dofs).map (fun j => waypoint waypoints i j) = waypoints[i] := by
  have size := shape.size _ (List.getElem_mem inside)
  apply List.ext_getElem
  · simp [size]
  · intro j first last
    simp [waypoint, List.getD_eq_getElem?_getD, inside, last]

variable [LinearOrder K] [IsStrictOrderedRing K]

theorem tKnot_mono {nWp : Nat} {durationS : K} (positive : 0 ≤ durationS) {i j : Nat} (le : i ≤ j) :
    tKnot nWp durationS i ≤ tKnot nWp durationS j := by
  have rate : 0 ≤ durationS / ((nWp - 1 : Nat) : K) := div_nonneg positive (Nat.cast_nonneg _)
  exact mul_le_mul_of_nonneg_left (Nat.cast_le.mpr le) rate

theorem tKnot_last {nWp : Nat} (enough : 2 ≤ nWp) (durationS : K) :
    tKnot nWp durationS (nWp - 1) = durationS := by
  have apart : ((nWp - 1 : Nat) : K) ≠ 0 := Nat.cast_ne_zero.mpr (by omega)
  exact div_mul_cancel₀ durationS apart

theorem segH_pos {nWp : Nat} (enough : 2 ≤ nWp) {durationS : K} (positive : 0 < durationS) (i : Nat) :
    0 < segH nWp durationS i := by
  rw [segH_eq]
  have count : (0 : K) < ((nWp - 1 : Nat) : K) := Nat.cast_pos.mpr (by omega)
  exact div_pos positive count

omit [IsStrictOrderedRing K] in
theorem Trajectory.eval_length (traj : Trajectory K) (t : K) : (traj.eval t).length = traj.numDofs := by
  simp only [Trajectory.eval]
  split
  · exact List.length_replicate
  · simp

omit [IsStrictOrderedRing K] in
theorem Trajectory.eval_empty (t : K) : (Trajectory.empty : Trajectory K).eval t = [] :=
  List.eq_nil_of_length_eq_zero (Trajectory.empty.eval_length t)

/-- The search stops at the one segment that starts at or before `t` and is either the
last or followed by a segment that starts after `t`. -/
theorem fitCubicSpline_segIdx (shape : Rectangular waypoints dofs) (positive : 0 ≤ durationS) {t : K} {i : Nat}
    (inside : i < waypoints.length - 1) (started : tKnot waypoints.length durationS i ≤ t)
    (current : i = waypoints.length - 2 ∨ t < tKnot waypoints.length durationS (i + 1)) :
    (fitCubicSpline waypoints durationS).segIdx t = i := by
  have count : (fitCubicSpline waypoints durationS).numSegments = waypoints.length - 1 := by
    rw [fitCubicSpline_eq shape]
  have enough := shape.enough
  have found : (List.range (fitCubicSpline waypoints durationS).numSegments).find? (fun i =>
      ((fitCubicSpline waypoints durationS).segment 0 i).tStart ≤ t ∧
        (i = (fitCubicSpline waypoints durationS).numSegments - 1 ∨
          t < ((fitCubicSpline waypoints durationS).segment 0 (i + 1)).tStart)) = some i := by
    rw [count, List.find?_range_eq_some]
    refine ⟨?_, List.mem_range.mpr inside, fun earlier before => ?_⟩
    · rw [decide_eq_true_eq, fitCubicSpline_tStart shape inside]
      refine ⟨started, ?_⟩
      rcases current with last | next
      · exact Or.inl (by omega)
      · by_cases last : i = waypoints.length - 1 - 1
        · exact Or.inl last
        · right
          rw [fitCubicSpline_tStart shape (by omega)]
          exact next
    · have later : tKnot waypoints.length durationS (earlier + 1) ≤ t :=
        le_trans (tKnot_mono positive (by omega)) started
      rw [Bool.not_eq_true', decide_eq_false_iff_not, not_and_or, not_or, not_lt]
      right
      refine ⟨by omega, ?_⟩
      rw [fitCubicSpline_tStart shape (by omega)]
      exact later
  rw [Trajectory.segIdx, found, Option.getD_some]

theorem fitCubicSpline_eval (shape : Rectangular waypoints dofs) (positive : 0 < durationS) {t : K} {i : Nat}
    (nonneg : 0 ≤ t) (within : t ≤ durationS)
    (inside : i < waypoints.length - 1) (started : tKnot waypoints.length durationS i ≤ t)
    (current : i = waypoints.length - 2 ∨ t < tKnot waypoints.length durationS (i + 1)) :
    (fitCubicSpline waypoints durationS).eval t =
      (List.range dofs).map fun j =>
        (fitSegment waypoints.length durationS (fun i => waypoint waypoints i j) i).at
          (t - tKnot waypoints.length durationS i) := by
  have full : ((fitCubicSpline waypoints durationS).segments.isEmpty ||
      ((fitCubicSpline waypoints durationS).segments.getD 0 []).isEmpty) = false := by
    have enough := shape.enough
    have dof := shape.positive
    simp [fitCubicSpline_eq shape, List.getD_eq_getElem?_getD, dof]
    omega
  have duration : (fitCubicSpline waypoints durationS).durationS = durationS := by
    rw [fitCubicSpline_eq shape]
  have numDofs : (fitCubicSpline waypoints durationS).numDofs = dofs := by
    rw [fitCubicSpline_eq shape]
  have clamped : max 0 (min t (fitCubicSpline waypoints durationS).durationS) = t := by
    rw [duration, min_eq_left within, max_eq_right nonneg]
  simp only [Trajectory.eval, full, clamped, numDofs, Bool.false_eq_true, if_false,
    fitCubicSpline_segIdx shape positive.le inside started current]
  apply List.map_congr_left
  intro j dof
  rw [fitCubicSpline_segment shape (List.mem_range.mp dof) inside]
  rfl

omit [IsStrictOrderedRing K] in
theorem Trajectory.eval_clamped (traj : Trajectory K) (t : K) :
    traj.eval t = traj.eval (max 0 (min t traj.durationS)) := by
  have idle : max 0 (min (max 0 (min t traj.durationS)) traj.durationS) = max 0 (min t traj.durationS) := by
    rcases le_total 0 traj.durationS with ahead | behind
    · rw [min_eq_left (max_le ahead (min_le_right _ _)), max_eq_right (le_max_left _ _)]
    · rw [max_eq_left ((min_le_right _ _).trans behind), max_eq_left ((min_le_right _ _).trans behind)]
  unfold Trajectory.eval
  rw [idle]

theorem exists_segment {nWp : Nat} (enough : 2 ≤ nWp) {durationS t : K} (nonneg : 0 ≤ t) (within : t ≤ durationS) :
    ∃ i < nWp - 1, tKnot nWp durationS i ≤ t ∧ t ≤ tKnot nWp durationS (i + 1) ∧
      (i = nWp - 2 ∨ t < tKnot nWp durationS (i + 1)) := by
  -- the last knot at or before `t`, among those that start a segment
  have search (count : Nat) (bound : count ≤ nWp - 2) : ∃ i ≤ count, tKnot nWp durationS i ≤ t ∧
      (i = count ∨ t < tKnot nWp durationS (i + 1)) := by
    induction count with
    | zero => exact ⟨0, le_rfl, (tKnot_zero nWp durationS).trans_le nonneg, Or.inl rfl⟩
    | succ count ih =>
      by_cases started : tKnot nWp durationS (count + 1) ≤ t
      · exact ⟨count + 1, le_rfl, started, Or.inl rfl⟩
      · obtain ⟨i, earlier, begun, current⟩ := ih (by omega)
        refine ⟨i, by omega, begun, Or.inr ?_⟩
        rcases current with rfl | next
        · exact not_le.mp started
        · exact next
  obtain ⟨i, inside, started, current⟩ := search (nWp - 2) le_rfl
  refine ⟨i, by omega, started, ?_, current⟩
  rcases current with rfl | next
  · have final : nWp - 2 + 1 = nWp - 1 := by omega
    rw [final, tKnot_last enough]
    exact within
  · exact next.le

theorem fitCubicSpline_eval_zero (shape : Rectangular waypoints dofs) (positive : 0 < durationS) :
    waypoints.head? = some ((fitCubicSpline waypoints durationS).eval 0) := by
  have enough := shape.enough
  have next : (0 : K) < tKnot waypoints.length durationS 1 := by
    have apart := segH_pos enough positive 0
    rwa [segH, tKnot_zero, sub_zero] at apart
  have inside : 0 < waypoints.length := by omega
  rw [fitCubicSpline_eval shape positive le_rfl positive.le (by omega) (tKnot_zero _ _).le (Or.inr next)]
  rw [List.head?_eq_getElem?, List.getElem?_eq_getElem inside, ← waypoint_row shape inside]
  congr 1
  apply List.map_congr_left
  intro j _
  rw [tKnot_zero, sub_zero, fitSegment_start]

theorem fitCubicSpline_eval_duration (shape : Rectangular waypoints dofs) (positive : 0 < durationS) :
    waypoints.getLast? = some ((fitCubicSpline waypoints durationS).eval durationS) := by
  have enough := shape.enough
  have last := tKnot_last enough durationS
  have started : tKnot waypoints.length durationS (waypoints.length - 2) ≤ durationS :=
    le_of_le_of_eq (tKnot_mono positive.le (by omega)) last
  have index : waypoints.length - 1 = waypoints.length - 2 + 1 := by omega
  have span : durationS - tKnot waypoints.length durationS (waypoints.length - 2) =
      segH waypoints.length durationS (waypoints.length - 2) := by
    rw [segH, ← index, last]
  have inside : waypoints.length - 1 < waypoints.length := by omega
  rw [fitCubicSpline_eval shape positive positive.le le_rfl (by omega) started (Or.inl rfl)]
  rw [List.getLast?_eq_getElem?, List.getElem?_eq_getElem inside, ← waypoint_row shape inside]
  congr 1
  apply List.map_congr_left
  intro j _
  rw [span, fitSegment_end _ _ _ _ (segH_pos enough positive _).ne', index]

theorem fitCubicSpline_eval_knot (shape : Rectangular waypoints dofs) (positive : 0 < durationS) {i : Nat}
    (inside : i < waypoints.length) :
    (fitCubicSpline waypoints durationS).eval (tKnot waypoints.length durationS i) = waypoints[i] := by
  have enough := shape.enough
  have nonneg : 0 ≤ tKnot waypoints.length durationS i :=
    (tKnot_zero waypoints.length durationS).symm.trans_le (tKnot_mono positive.le i.zero_le)
  have within : tKnot waypoints.length durationS i ≤ durationS :=
    (tKnot_mono positive.le (by omega)).trans_eq (tKnot_last enough durationS)
  by_cases last : i = waypoints.length - 1
  · have final := fitCubicSpline_eval_duration shape positive
    rw [List.getLast?_eq_getElem?, ← last, List.getElem?_eq_getElem inside] at final
    have time : tKnot waypoints.length durationS i = durationS := last ▸ tKnot_last enough durationS
    rw [time, Option.some.inj final]
  · have next : tKnot waypoints.length durationS i < tKnot waypoints.length durationS (i + 1) :=
      sub_pos.mp (segH_pos enough positive i)
    rw [fitCubicSpline_eval shape positive nonneg within (by omega) le_rfl (Or.inr next), ← waypoint_row shape inside]
    apply List.map_congr_left
    intro j _
    rw [sub_self, fitSegment_start]

theorem fitCubicSpline_line {start goal : List K} (start_size : start.length = dofs) (goal_size : goal.length = dofs)
    (dof : 0 < dofs) (positive : 0 < durationS) {t : K} (nonneg : 0 ≤ t) (within : t ≤ durationS) :
    (fitCubicSpline [start, goal] durationS).eval t =
      (List.range dofs).map fun j => start.getD j 0 + (goal.getD j 0 - start.getD j 0) * (t / durationS) := by
  have shape : Rectangular [start, goal] dofs := ⟨le_rfl, dof, by simp [start_size, goal_size]⟩
  have started : tKnot [start, goal].length durationS 0 ≤ t := by
    rw [tKnot_zero]
    exact nonneg
  rw [fitCubicSpline_eval shape positive nonneg within (by simp) started (Or.inl rfl)]
  apply List.map_congr_left
  intro j _
  have flat (y : Nat → K) (i : Nat) : secondDeriv 2 durationS y i = 0 := by
    unfold secondDeriv
    cases back : 2 - 1 - i with
    | zero => rfl
    | succ k =>
      have single : k = 0 := by omega
      subst single
      simp [backSub, sweep]
  have span : segH 2 durationS 0 = durationS := by simp [segH_eq]
  have apart : durationS ≠ 0 := positive.ne'
  simp [fitSegment, Segment.at, flat, span, tKnot_zero, waypoint]
  field_simp

theorem fitCubicSpline_line_end {start goal : List K} (start_size : start.length = dofs)
    (goal_size : goal.length = dofs) (dof : 0 < dofs) (positive : 0 < durationS) {t : K}
    (nonneg : 0 ≤ t) (within : t ≤ durationS) :
    (fitCubicSpline [start, goal] durationS).eval t = goal ↔ t = durationS ∨ start = goal := by
  have joint (first last : K) : first + (last - first) * (t / durationS) = last ↔ t = durationS ∨ first = last := by
    have factored : first + (last - first) * (t / durationS) - last = (last - first) * (t / durationS - 1) := by ring
    rw [← sub_eq_zero, factored, mul_eq_zero, sub_eq_zero, sub_eq_zero, div_eq_one_iff_eq positive.ne', or_comm,
      eq_comm (a := last)]
  have every : (fitCubicSpline [start, goal] durationS).eval t = goal ↔
      ∀ j < dofs, t = durationS ∨ start.getD j 0 = goal.getD j 0 := by
    rw [fitCubicSpline_line start_size goal_size dof positive nonneg within]
    constructor
    · intro same j inside
      apply (joint _ _).mp
      have entry := congrArg (fun row : List K => row.getD j 0) same
      simpa [inside, List.getD_eq_getElem?_getD] using entry
    · intro same
      apply List.ext_getElem (by simp [goal_size])
      intro j first last
      have inside : j < dofs := goal_size ▸ last
      have reached := (joint _ _).mpr (same j inside)
      rw [List.getElem_map, List.getElem_range, reached, List.getD_eq_getElem _ _ last]
  rw [every]
  constructor
  · intro same
    by_cases ended : t = durationS
    · exact Or.inl ended
    · right
      apply List.ext_getElem (start_size.trans goal_size.symm)
      intro j first last
      have equal := (same j (start_size ▸ first)).resolve_left ended
      rwa [List.getD_eq_getElem _ _ first, List.getD_eq_getElem _ _ last] at equal
  · rintro (ended | same) j _
    · exact Or.inl ended
    · exact Or.inr (by rw [same])

end RoboticsRt

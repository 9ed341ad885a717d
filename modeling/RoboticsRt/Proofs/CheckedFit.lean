import RoboticsRt.CheckedFit
import RoboticsRt.Library.Returns
import Mathlib.Data.List.GetD

/-! What the checked fit stops at. Its divisors depend on the duration and the number of
waypoints alone, through the knot distances and the pivots of the sweep. In exact arithmetic
what it returns is the trajectory of `Trajectory.lean`. -/

namespace RoboticsRt
open Except

namespace Checked

section Divisors
variable {D : Type} [Add D] [Sub D] [Mul D] [Div D] [IntCast D] [DecidableEq D]

/-- `l[i]` and `mu[i]`, as far as the waypoints have no part in them. -/
def pivot (step : D) : Nat → D × D
  | 0 => (((1 : Int) : D), ((0 : Int) : D))
  | i + 1 =>
    let l := ((2 : Int) : D) * (segH step i + segH step (i + 1)) - segH step i * (pivot step i).2
    (l, segH step (i + 1) / l)

structure Divisible (step : D) (nSegments : Nat) : Prop where
  h : ∀ i < nSegments, segH step i ≠ ((0 : Int) : D)
  sixfold : ∀ i < nSegments, ((6 : Int) : D) * segH step i ≠ ((0 : Int) : D)
  l : ∀ i, i + 1 < nSegments → (pivot step (i + 1)).1 ≠ ((0 : Int) : D)

variable {step a b c : D} {y m : Nat → D}

omit [Add D] [Sub D] [Mul D] in
theorem divide_eq_ok : divide a b = .ok c ↔ b ≠ ((0 : Int) : D) ∧ c = a / b := by
  unfold divide
  split
  next zero => exact iff_of_false nofun fun nonzero => nonzero.1 zero
  next nonzero =>
    rw [Except.ok.injEq, eq_comm]
    exact (and_iff_right nonzero).symm

omit [Add D] [Sub D] [Mul D] in
theorem divide_returns : (divide a b).Returns ↔ b ≠ ((0 : Int) : D) := by
  constructor
  · rintro ⟨c, run⟩
    exact (divide_eq_ok.mp run).1
  · exact fun nonzero => ⟨a / b, divide_eq_ok.mpr ⟨nonzero, rfl⟩⟩

omit [Add D] [Sub D] [Mul D] [Div D] [IntCast D] [DecidableEq D] in
theorem waypoint_eq_ok {waypoints : List (List D)} {i j : Nat} {value : D} :
    waypoint waypoints j i = .ok value ↔ (waypoints.getD i [])[j]? = some value := by
  unfold waypoint
  cases (waypoints.getD i [])[j]? with
  | none => exact iff_of_false nofun nofun
  | some found => rw [Except.ok.injEq, Option.some.injEq]

omit [Add D] [Sub D] [Mul D] [Div D] [IntCast D] [DecidableEq D] in
theorem waypoint_returns {waypoints : List (List D)} {i j : Nat} :
    (waypoint waypoints j i).Returns ↔ j < (waypoints.getD i []).length := by
  constructor
  · rintro ⟨value, run⟩
    exact (List.getElem?_eq_some_iff.mp (waypoint_eq_ok.mp run)).1
  · exact fun inside => ⟨_, waypoint_eq_ok.mpr (List.getElem?_eq_getElem inside)⟩

omit [Add D] in
theorem alpha_returns {i : Nat} : (alpha step y (i + 1)).Returns ↔
    segH step (i + 1) ≠ ((0 : Int) : D) ∧ segH step i ≠ ((0 : Int) : D) := by
  unfold alpha
  rw [returns_bind_of, divide_returns]
  intro after _
  rw [returns_bind_of (p := True), divide_returns, and_true, Nat.add_sub_cancel]
  exact fun before _ => iff_of_true (returns_pure _) trivial

theorem sweep_pivot {i : Nat} {row : SweepRow D} (swept : sweep step y i = .ok row) :
    row.l = (pivot step i).1 ∧ row.mu = (pivot step i).2 := by
  induction i generalizing row with
  | zero =>
    cases swept
    exact ⟨rfl, rfl⟩
  | succ i ih =>
    obtain ⟨alpha, _, run⟩ := bind_eq_ok.mp swept
    obtain ⟨prev, before, run⟩ := bind_eq_ok.mp run
    obtain ⟨mu, ratio, run⟩ := bind_eq_ok.mp run
    obtain ⟨z, _, run⟩ := bind_eq_ok.mp run
    cases run
    rw [(ih before).2] at ratio ⊢
    exact ⟨rfl, (divide_eq_ok.mp ratio).2⟩

theorem sweep_returns {i : Nat} : (sweep step y i).Returns ↔ ∀ k < i,
    (segH step (k + 1) ≠ ((0 : Int) : D) ∧ segH step k ≠ ((0 : Int) : D)) ∧ (pivot step (k + 1)).1 ≠ ((0 : Int) : D) := by
  induction i with
  | zero => exact iff_of_true (returns_pure _) nofun
  | succ i ih =>
    let l := ((2 : Int) : D) * (segH step i + segH step (i + 1)) - segH step i * (pivot step i).2
    -- both quotients of the row are by the pivot
    have row (right : D) : (divide (segH step (i + 1)) l >>= fun mu =>
        divide right l >>= fun z => return (⟨l, mu, z⟩ : SweepRow D)).Returns ↔ l ≠ ((0 : Int) : D) := by
      rw [returns_bind_of (p := l ≠ ((0 : Int) : D)), divide_returns, and_self]
      intro mu _
      rw [returns_bind_of (p := True), divide_returns, and_true]
      exact fun z _ => iff_of_true (returns_pure _) trivial
    rw [Nat.forall_lt_succ_right, ← ih, sweep, returns_bind_of (p := (sweep step y i).Returns ∧ l ≠ ((0 : Int) : D)),
      alpha_returns]
    · exact and_left_comm
    · intro alpha _
      refine returns_bind_of fun prev before => ?_
      rw [(sweep_pivot before).2]
      exact row _

theorem fitSegment_returns (constants : ((6 : Int) : D) ≠ ((0 : Int) : D) ∧ ((2 : Int) : D) ≠ ((0 : Int) : D)) {i : Nat} :
    (fitSegment step y m i).Returns ↔
      segH step i ≠ ((0 : Int) : D) ∧ ((6 : Int) : D) * segH step i ≠ ((0 : Int) : D) := by
  unfold fitSegment
  rw [returns_bind_of (p := ((6 : Int) : D) * segH step i ≠ ((0 : Int) : D)), divide_returns]
  intro hInv _
  rw [returns_bind_of (p := ((6 : Int) : D) * segH step i ≠ ((0 : Int) : D)), divide_returns]
  · exact and_iff_right constants.1
  intro bend _
  rw [returns_bind_of (p := ((6 : Int) : D) * segH step i ≠ ((0 : Int) : D)), divide_returns]
  · exact and_iff_right constants.2
  intro c _
  rw [returns_bind_of (p := True), divide_returns, and_true]
  exact fun d _ => iff_of_true (returns_pure _) trivial

theorem fitDof_returns (constants : ((6 : Int) : D) ≠ ((0 : Int) : D) ∧ ((2 : Int) : D) ≠ ((0 : Int) : D))
    {waypoints : List (List D)} {nWp j : Nat} : (fitDof waypoints nWp step j).Returns ↔
      (∀ i < nWp, j < (waypoints.getD i []).length) ∧ Divisible step (nWp - 1) := by
  have segments (y m : Nat → D) : ((List.range (nWp - 1)).mapM (fitSegment step y m)).Returns ↔
      ∀ i < nWp - 1, segH step i ≠ ((0 : Int) : D) ∧ ((6 : Int) : D) * segH step i ≠ ((0 : Int) : D) := by
    simp only [mapM_returns, List.mem_range, fitSegment_returns constants]
  have rows (y : Nat → D) : ((List.range (nWp - 1)).mapM (sweep step y)).Returns ↔ ∀ i < nWp - 1, ∀ k < i,
      (segH step (k + 1) ≠ ((0 : Int) : D) ∧ segH step k ≠ ((0 : Int) : D)) ∧
        (pivot step (k + 1)).1 ≠ ((0 : Int) : D) := by
    simp only [mapM_returns, List.mem_range, sweep_returns]
  unfold fitDof
  rw [returns_bind_of (p := Divisible step (nWp - 1)), mapM_returns]
  · simp only [List.mem_range, waypoint_returns]
  intro ys _
  rw [returns_bind_of fun rows _ => segments _ _, rows]
  constructor
  · rintro ⟨swept, spaced⟩
    exact ⟨fun i inside => (spaced i inside).1, fun i inside => (spaced i inside).2,
      fun i inside => (swept (i + 1) inside i (Nat.lt_succ_self i)).2⟩
  · intro divisible
    refine ⟨fun i inside k before => ?_, fun i inside => ⟨divisible.h i inside, divisible.sixfold i inside⟩⟩
    exact ⟨⟨divisible.h _ (by omega), divisible.h _ (by omega)⟩, divisible.l k (by omega)⟩

/-- The divisors are the number of segments and those of `Divisible`, and the reads those of the
waypoints. Nothing else in the program can fail, and whether it does depends on the waypoints by
their lengths only. -/
theorem fit_returns (constants : ((6 : Int) : D) ≠ ((0 : Int) : D) ∧ ((2 : Int) : D) ≠ ((0 : Int) : D))
    {waypoints : List (List D)} {durationS : D} (enough : 2 ≤ toInt waypoints.length)
    (joints : waypoints.getD 0 [] ≠ []) : (fitCubicSpline waypoints durationS).Returns ↔
      ((toInt waypoints.length - 1 : Int) : D) ≠ ((0 : Int) : D) ∧ 0 ≤ toInt (waypoints.getD 0 []).length ∧
        ∀ j < (toInt (waypoints.getD 0 []).length).toNat,
          (∀ i < (toInt waypoints.length).toNat, j < (waypoints.getD i []).length) ∧
            Divisible (durationS / ((toInt waypoints.length - 1 : Int) : D)) ((toInt waypoints.length).toNat - 1) := by
  let nDofs := toInt (waypoints.getD 0 []).length
  let nWp := toInt waypoints.length
  have fitted (step : D) : ((List.range nDofs.toNat).mapM (fitDof waypoints nWp.toNat step) >>= fun segments =>
      return (⟨durationS, nDofs.toNat, nWp.toNat - 1, segments⟩ : Trajectory D)).Returns ↔ ∀ j < nDofs.toNat,
        (∀ i < nWp.toNat, j < (waypoints.getD i []).length) ∧ Divisible step (nWp.toNat - 1) := by
    rw [returns_bind_of (p := True), and_true, mapM_returns]
    · simp only [List.mem_range, fitDof_returns constants]
    · exact fun segments _ => iff_of_true (returns_pure _) trivial
  unfold fitCubicSpline
  rw [if_neg (not_lt.mpr enough), if_neg (by simpa using joints), returns_bind_of, divide_returns]
  intro step quotient
  rw [← (divide_eq_ok.mp quotient).2, ← fitted]
  by_cases negative : nDofs < 0
  · rw [if_pos negative]
    exact iff_of_false nofun fun counted => absurd counted.1 (not_le.mpr negative)
  · rw [if_neg negative]
    exact (and_iff_right (not_lt.mp negative)).symm

end Divisors

/-! In exact arithmetic, and with sizes that an `int` can hold, what the fit returns is the
trajectory of `Trajectory.lean`. -/

theorem toInt_small {size : Nat} (small : size < 2 ^ 31) : toInt size = size := by
  unfold toInt
  rw [Int.bmod_def]
  omega

section Exact
variable {K : Type} [Field K] [DecidableEq K] {nWp : Nat} {durationS : K} {y : Nat → K}

omit [DecidableEq K] in
theorem waypoint_exact {waypoints : List (List K)} {i j : Nat} {value : K} (read : waypoint waypoints j i = .ok value) :
    value = RoboticsRt.waypoint waypoints i j := by
  rw [RoboticsRt.waypoint, List.getD_eq_getElem?_getD, waypoint_eq_ok.mp read, Option.getD_some]

omit [DecidableEq K] in
theorem segH_exact (i : Nat) : segH (durationS / ((nWp - 1 : Nat) : K)) i = RoboticsRt.segH nWp durationS i := by
  unfold segH tKnot RoboticsRt.segH RoboticsRt.tKnot
  rw [Int.cast_natCast, Int.cast_natCast]

theorem alpha_exact {i : Nat} (inside : i + 1 < nWp - 1) {value : K}
    (run : alpha (durationS / ((nWp - 1 : Nat) : K)) y (i + 1) = .ok value) :
    value = RoboticsRt.alpha nWp durationS y (i + 1) := by
  obtain ⟨after, first, run⟩ := bind_eq_ok.mp run
  obtain ⟨before, second, run⟩ := bind_eq_ok.mp run
  cases run
  rw [RoboticsRt.alpha, if_pos ⟨Nat.succ_pos i, inside⟩, (divide_eq_ok.mp first).2, (divide_eq_ok.mp second).2, segH_exact,
    segH_exact, Int.cast_ofNat]

theorem sweep_exact {i : Nat} (inside : i < nWp - 1) {row : SweepRow K}
    (run : sweep (durationS / ((nWp - 1 : Nat) : K)) y i = .ok row) : row = RoboticsRt.sweep nWp durationS y i := by
  induction i generalizing row with
  | zero =>
    cases run
    rw [RoboticsRt.sweep, Int.cast_one, Int.cast_zero]
  | succ i ih =>
    obtain ⟨alpha, right, run⟩ := bind_eq_ok.mp run
    obtain ⟨prev, before, run⟩ := bind_eq_ok.mp run
    obtain ⟨mu, first, run⟩ := bind_eq_ok.mp run
    obtain ⟨z, second, run⟩ := bind_eq_ok.mp run
    cases run
    rw [RoboticsRt.sweep, if_pos inside, (divide_eq_ok.mp first).2, (divide_eq_ok.mp second).2, alpha_exact inside right,
      ih (Nat.lt_of_succ_lt inside) before, segH_exact, segH_exact, Int.cast_ofNat]

omit [DecidableEq K] in
theorem backSub_exact {rows : List (SweepRow K)}
    (same : rows = (List.range (nWp - 1)).map (RoboticsRt.sweep nWp durationS y)) {k : Nat} (inside : k ≤ nWp - 1) :
    backSub rows k = RoboticsRt.backSub nWp durationS y k := by
  induction k with
  | zero => exact Int.cast_zero
  | succ k ih =>
    have row : rows.getD (nWp - 2 - k) ⟨((1 : Int) : K), ((0 : Int) : K), ((0 : Int) : K)⟩ =
        RoboticsRt.sweep nWp durationS y (nWp - 2 - k) := by
      rw [same, List.getD_eq_getElem _ _ (by simp; omega), List.getElem_map, List.getElem_range]
    have size : rows.length - 1 - k = nWp - 2 - k := by
      rw [same, List.length_map, List.length_range]
      omega
    rw [backSub, RoboticsRt.backSub, size, row, ih (by omega)]

theorem fitSegment_exact {m : Nat → K} (derivs : m = secondDeriv nWp durationS y) {i : Nat} {seg : Segment K}
    (run : fitSegment (durationS / ((nWp - 1 : Nat) : K)) y m i = .ok seg) :
    seg = RoboticsRt.fitSegment nWp durationS y i := by
  obtain ⟨hInv, first, run⟩ := bind_eq_ok.mp run
  obtain ⟨bend, second, run⟩ := bind_eq_ok.mp run
  obtain ⟨c, third, run⟩ := bind_eq_ok.mp run
  obtain ⟨d, fourth, run⟩ := bind_eq_ok.mp run
  cases run
  have knot : tKnot (durationS / ((nWp - 1 : Nat) : K)) i = RoboticsRt.tKnot nWp durationS i := by
    rw [tKnot, RoboticsRt.tKnot, Int.cast_natCast]
  rw [RoboticsRt.fitSegment, (divide_eq_ok.mp first).2, (divide_eq_ok.mp second).2, (divide_eq_ok.mp third).2,
    (divide_eq_ok.mp fourth).2, knot, segH_exact, derivs, Int.cast_one, Int.cast_ofNat, Int.cast_ofNat]

theorem fitDof_exact {waypoints : List (List K)} {j : Nat} {segments : List (Segment K)}
    (run : fitDof waypoints waypoints.length (durationS / ((waypoints.length - 1 : Nat) : K)) j = .ok segments) :
    segments = (List.range (waypoints.length - 1)).map
      (RoboticsRt.fitSegment waypoints.length durationS fun i => RoboticsRt.waypoint waypoints i j) := by
  obtain ⟨ys, reads, run⟩ := bind_eq_ok.mp run
  obtain ⟨rows, swept, run⟩ := bind_eq_ok.mp run
  have values : (fun i => ys.getD i ((0 : Int) : K)) = fun i => RoboticsRt.waypoint waypoints i j := by
    have same := mapM_range_eq_map reads fun i _ value read => waypoint_exact read
    funext i
    by_cases inside : i < waypoints.length
    · rw [same, List.getD_eq_getElem _ _ (by simpa using inside), List.getElem_map, List.getElem_range]
    · rw [same, List.getD_eq_default _ _ (by simpa using inside), RoboticsRt.waypoint,
        List.getD_eq_default waypoints _ (by omega), Int.cast_zero]
      rfl
  rw [values] at swept run
  have rowsSame := mapM_range_eq_map swept fun i inside row made => sweep_exact inside made
  refine mapM_range_eq_map run fun i _ seg made => fitSegment_exact (funext fun i => ?_) made
  exact backSub_exact rowsSame (Nat.sub_le _ _)

/-- Over a field, where no double is lost, the checked fit and the one of `Trajectory.lean` are
one program. -/
theorem fit_exact {waypoints : List (List K)} (few : waypoints.length < 2 ^ 31)
    (narrow : (waypoints.getD 0 []).length < 2 ^ 31) {traj : Trajectory K}
    (run : fitCubicSpline waypoints durationS = .ok traj) : traj = RoboticsRt.fitCubicSpline waypoints durationS := by
  unfold fitCubicSpline at run
  rw [toInt_small few, toInt_small narrow] at run
  unfold RoboticsRt.fitCubicSpline
  by_cases short : waypoints.length < 2
  · rw [if_pos (by exact_mod_cast short)] at run
    cases run
    rw [if_pos short, Int.cast_zero]
    rfl
  rw [if_neg (by exact_mod_cast short)] at run
  rw [if_neg short]
  by_cases jointless : (waypoints.getD 0 []).isEmpty
  · rw [if_pos jointless] at run
    cases run
    rw [if_pos jointless, Int.cast_zero]
    rfl
  rw [if_neg jointless] at run
  rw [if_neg jointless]
  obtain ⟨step, quotient, run⟩ := bind_eq_ok.mp run
  rw [if_neg (by omega)] at run
  obtain ⟨segments, fitted, run⟩ := bind_eq_ok.mp run
  cases run
  have steps : step = durationS / ((waypoints.length - 1 : Nat) : K) := by
    have count : ((waypoints.length : Int) - 1 : Int) = ((waypoints.length - 1 : Nat) : Int) := by omega
    rw [(divide_eq_ok.mp quotient).2, count, Int.cast_natCast]
  subst steps
  have all := mapM_range_eq_map fitted fun j _ dof made => fitDof_exact made
  rw [all]
  rfl

end Exact

end Checked
end RoboticsRt

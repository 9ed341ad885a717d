import RoboticsRt.Proofs.Playback

/-! Where a completed trajectory comes to rest. The loop samples at whole milliseconds
not past the duration and holds the last sample, so the last waypoint is reached when
the duration is a whole number of milliseconds, or when the curve is there early. -/

namespace RoboticsRt.RtExecutor

variable {Ref K : Type} [Field K] [LinearOrder K] [DecidableEq Ref]

/-- Calls after which `ref` is still the active trajectory of the same run. -/
def Stays (ref : Ref) (after : List (Event Ref)) : Prop :=
  ∀ event ∈ after, event = .iteration ∨ event = .setTrajectory (some ref)

/-- From some iteration after the call on, every emitted position is `goal`. -/
def SettlesAt (heap : Ref → Trajectory K) (earlier : List (Event Ref)) (ref : Ref) (goal : List K) : Prop :=
  ∃ settled, ∀ after, Stays ref after → settled ≤ (pointersRead (some ref) after).length →
    ∀ emitted ∈ ((run heap initial (earlier ++ .setTrajectory (some ref) :: after)).performLoopIteration heap).2.onTick,
      emitted.2 = goal

theorem Stays.age {ref : Ref} {after : List (Event Ref)} (stays : Stays ref after) (earlier : List (Event Ref)) :
    (seen (earlier ++ .setTrajectory (some ref) :: after)).active = some ref ∧
      (pointersRead (some ref) after).length ≤ (seen (earlier ++ .setTrajectory (some ref) :: after)).age := by
  have follow (past : Seen Ref) (active : past.active = some ref) :
      (after.foldl Seen.step past).active = some ref ∧
        (pointersRead (some ref) after).length + past.age ≤ (after.foldl Seen.step past).age := by
    induction after generalizing past with
    | nil => exact ⟨active, by simp [pointersRead]⟩
    | cons event rest ih =>
      have later := ih fun event member => stays event (List.mem_cons_of_mem _ member)
      rcases stays event List.mem_cons_self with rfl | rfl
      · obtain ⟨still, aged⟩ := later (past.step .iteration) active
        have older : (past.step .iteration).age = past.age + 1 := by
          rw [Seen.age, Seen.step, List.takeWhile_cons_of_pos (by simp), List.length_cons]
          rfl
        refine ⟨still, ?_⟩
        rw [pointersRead, List.length_cons, List.foldl_cons]
        omega
      · have same : past.step (.setTrajectory (some ref)) = past := by rw [Seen.step, ← active]
        rw [pointersRead, List.foldl_cons, same]
        exact later past active
  have followed := follow ((seen earlier).step (.setTrajectory (some ref))) rfl
  rw [seen, List.foldl_append, List.foldl_cons]
  exact ⟨followed.1, by unfold seen at followed; omega⟩

variable [IsStrictOrderedRing K] [FloorSemiring K]

theorem Playable.settles_iff {heap : Ref → Trajectory K} {ref : Ref} (playable : Playable (heap ref))
    (earlier : List (Event Ref)) (goal : List K) :
    SettlesAt heap earlier ref goal ↔ (heap ref).eval (tick * (lastTick (heap ref) : K)) = goal := by
  have emission (after : List (Event Ref)) (stays : Stays ref after)
      (done : lastTick (heap ref) ≤ (pointersRead (some ref) after).length) :
      ∃ time, ((run heap initial (earlier ++ .setTrajectory (some ref) :: after)).performLoopIteration heap).2.onTick =
        [(time, (heap ref).eval (tick * (lastTick (heap ref) : K)))] := by
    obtain ⟨active, aged⟩ := stays.age earlier
    have plays := ((tracks_run heap _).plays active playable).1
    rw [min_eq_right (le_trans done aged)] at plays
    exact ⟨_, plays⟩
  constructor
  · intro ⟨settled, settles⟩
    let after := List.replicate (max settled (lastTick (heap ref))) (Event.iteration : Event Ref)
    have stays : Stays ref after := fun event member => Or.inl (List.eq_of_mem_replicate member)
    have count (n : Nat) : (pointersRead (some ref) (List.replicate n .iteration)).length = n := by
      induction n with
      | zero => rfl
      | succ n ih => simp [List.replicate_succ, pointersRead, ih]
    obtain ⟨time, emits⟩ := emission after stays (by rw [count]; exact le_max_right _ _)
    apply settles after stays (by rw [count]; exact le_max_left _ _) (time, _)
    rw [emits]
    exact List.mem_singleton_self _
  · intro reached
    refine ⟨lastTick (heap ref), fun after stays done emitted member => ?_⟩
    obtain ⟨time, emits⟩ := emission after stays done
    rw [emits, List.mem_singleton] at member
    rw [member]
    exact reached

/-! Fitted trajectories. -/

variable {heap : Ref → Trajectory K} {ref : Ref} {waypoints : List (List K)} {dofs : Nat} {durationS : K}

omit [IsStrictOrderedRing K] [FloorSemiring K] in
theorem fitted_playable (shape : Rectangular waypoints dofs) (positive : 0 < durationS) :
    Playable (fitCubicSpline waypoints durationS) where
  duration := by
    rw [fitCubicSpline_eq shape]
    exact positive.le
  position t empty := by
    have size := (fitCubicSpline waypoints durationS).eval_length t
    have dof := shape.positive
    rw [empty, fitCubicSpline_eq shape, List.length_nil] at size
    exact absurd size dof.ne

private theorem jointless_settles (earlier : List (Event Ref)) (jointless : ∀ t, (heap ref).eval t = []) :
    SettlesAt heap earlier ref [] := by
  refine ⟨0, fun after stays _ emitted member => ?_⟩
  obtain ⟨other, active, t, _, _, _, _, position⟩ := (holding_run heap _).iteration.2 emitted member
  have same : some ref = some other := by rw [← active, (tracks_run heap _).active, (stays.age earlier).1]
  rw [position, ← Option.some.inj same, jointless]

/-- The clock only takes whole milliseconds, and past the end the loop holds what it evaluated
last. That is the goal where the last whole millisecond is the end of the trajectory, or the curve
is at the goal already; a line between two waypoints is only there at its end. -/
theorem settles_at_goal_iff (earlier : List (Event Ref)) (fitted : heap ref = fitCubicSpline waypoints durationS)
    (enough : 2 ≤ waypoints.length) (size : ∀ point ∈ waypoints, point.length = dofs) (positive : 0 < durationS)
    {goal : List K} (last : waypoints.getLast? = some goal) :
    (SettlesAt heap earlier ref goal ↔
      (∃ count : Nat, durationS = tick * (count : K)) ∨
        (fitCubicSpline waypoints durationS).eval (tick * (⌊durationS / tick⌋₊ : K)) = goal) ∧
    ∀ start, waypoints = [start, goal] →
      (SettlesAt heap earlier ref goal ↔ (∃ count : Nat, durationS = tick * (count : K)) ∨ start = goal) := by
  rcases Nat.eq_zero_or_pos dofs with none | some
  · subst none
    have goal_empty : goal = [] := List.length_eq_zero_iff.mp (size goal (List.mem_of_getLast? last))
    have jointless : waypoints.getD 0 [] = [] := by
      rw [List.getD_eq_getElem _ _ (by omega)]
      exact List.length_eq_zero_iff.mp (size _ (List.getElem_mem _))
    have eval_empty (t : K) : (fitCubicSpline waypoints durationS).eval t = [] := by
      rw [fitCubicSpline_empty _ _ (Or.inr jointless), Trajectory.eval_empty]
    have settles : SettlesAt heap earlier ref [] := jointless_settles earlier fun t => fitted ▸ eval_empty t
    rw [goal_empty]
    refine ⟨iff_of_true settles (Or.inr (eval_empty _)), fun start line => iff_of_true settles (Or.inr ?_)⟩
    exact List.length_eq_zero_iff.mp (size start (by simp [line]))
  · have shape : Rectangular waypoints dofs := ⟨enough, some, size⟩
    have playable : Playable (heap ref) := fitted ▸ fitted_playable shape positive
    have duration : (fitCubicSpline waypoints durationS).durationS = durationS := by rw [fitCubicSpline_eq shape]
    have whole : (∃ count : Nat, durationS = tick * (count : K)) ↔ durationS = tick * (⌊durationS / tick⌋₊ : K) := by
      refine ⟨fun ⟨count, same⟩ => ?_, fun same => ⟨_, same⟩⟩
      have floored : ⌊durationS / tick⌋₊ = count := by
        rw [same, mul_div_cancel_left₀ _ tick_pos.ne', Nat.floor_natCast]
      rw [floored]
      exact same
    have ended := fitCubicSpline_eval_duration shape positive
    rw [last, Option.some.injEq] at ended
    rw [playable.settles_iff, lastTick, fitted, duration, whole]
    constructor
    · refine ⟨Or.inr, fun reached => reached.elim (fun same => ?_) id⟩
      rw [← same, ended]
    · intro start line
      subst line
      have inside : tick * (⌊durationS / tick⌋₊ : K) ≤ durationS := by
        have floored := (clock_le_duration playable.duration (lastTick (heap ref))).mpr le_rfl
        rwa [lastTick, fitted, duration] at floored
      rw [fitCubicSpline_line_end (size start (by simp)) (size goal (by simp)) some positive
        (mul_nonneg tick_pos.le (Nat.cast_nonneg _)) inside, eq_comm (a := durationS)]

theorem settles_at_goal_whole : SettlesAt (ramp (1 / 500)) [.start 0] () [1] := by
  have fitted : ramp (1 / 500) () = fitCubicSpline [[0], [1]] (1 / 500) := rfl
  have last : [[0], [1]].getLast? = some [(1 : ℚ)] := rfl
  have size : ∀ point ∈ [[0], [(1 : ℚ)]], point.length = 1 := by simp
  apply (settles_at_goal_iff [.start 0] fitted le_rfl size (by norm_num) last).1.mpr
  exact Or.inl ⟨2, by norm_num [tick]⟩

/-- One and a half milliseconds from 0 to 1: the loop holds two thirds. -/
theorem goal_missed : ¬ SettlesAt (ramp (3 / 2000)) [.start 0] () [1] := by
  rw [(ramp_playable (by norm_num)).settles_iff, ramp_lastTick, ramp_position]
  decide +kernel

end RoboticsRt.RtExecutor

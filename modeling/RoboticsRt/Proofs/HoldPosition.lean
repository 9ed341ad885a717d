import RoboticsRt.Proofs.Playback

/-! Holding the last position. A new pointer clears `last_q_`, so the position survives
the end of a trajectory and does not survive its removal: an iteration is silent exactly
when it reads null, whatever was emitted before. -/

namespace RoboticsRt.RtExecutor

variable {Ref K : Type} [Field K] [LinearOrder K] [DecidableEq Ref]

/-- What the interface promises of consecutive iterations of one run. -/
structure HoldsPosition (ticks : List (Option Ref × List (K × List K))) : Prop where
  emits : ticks.Pairwise fun earlier later => earlier.2 ≠ [] → later.2 ≠ []
  repeats : ticks.IsChain fun previous current =>
    current.1 = none → current.2.map Prod.snd = previous.2.map Prod.snd

def NeverRemoved (pointers : List (Option Ref)) : Prop :=
  pointers.Pairwise fun earlier later => earlier ≠ none → later ≠ none

def PlayableCalls (heap : Ref → Trajectory K) (events : List (Event Ref)) : Prop :=
  ∀ ref, .setTrajectory (some ref) ∈ events → Playable (heap ref)

omit [DecidableEq Ref] in
theorem seen_set (events : List (Event Ref)) {ref : Ref} (active : (seen events).active = some ref) :
    .setTrajectory (some ref) ∈ events := by
  induction events using List.reverseRecOn with
  | nil => cases active
  | append_singleton events event ih =>
    rw [seen, List.foldl_append] at active
    cases event with
    | setTrajectory traj =>
      have same : traj = some ref := active
      subst same
      simp
    | start nowNs => exact List.mem_append_left _ (ih active)
    | iteration => exact List.mem_append_left _ (ih active)

variable [IsStrictOrderedRing K] [FloorSemiring K]

theorem iterations_silent (heap : Ref → Trajectory K) (earlier events : List (Event Ref))
    (playable : PlayableCalls heap (earlier ++ events)) :
    ∀ tick ∈ iterations heap (run heap initial earlier) events, tick.2 = [] ↔ tick.1 = none := by
  induction events generalizing earlier with
  | nil => intro tick member; cases member
  | cons event rest ih =>
    have regroup : earlier ++ event :: rest = (earlier ++ [event]) ++ rest := by simp
    have later := ih (earlier ++ [event]) (regroup ▸ playable)
    rw [run_append, run_cons, run_nil] at later
    cases event with
    | setTrajectory traj => exact later
    | start nowNs => exact later
    | iteration =>
      intro tick member
      rcases List.mem_cons.mp member with current | following
      · have tracks := tracks_run heap earlier
        rw [current]
        cases active : (seen earlier).active with
        | none => simp [tracks.active, active, (tracks.null active).1]
        | some ref =>
          have set : Playable (heap ref) := playable ref (List.mem_append_left _ (seen_set earlier active))
          simp [tracks.active, active, (tracks.plays active set).1]
      · exact later tick following

theorem emits_iff (heap : Ref → Trajectory K) (earlier events : List (Event Ref))
    (playable : PlayableCalls heap (earlier ++ events)) :
    (iterations heap (run heap initial earlier) events).Pairwise (fun before after => before.2 ≠ [] → after.2 ≠ []) ↔
      NeverRemoved (pointersRead (seen earlier).active events) := by
  have silent := iterations_silent heap earlier events playable
  rw [← (tracks_run heap earlier).active, ← iterations_pointers heap, NeverRemoved, List.pairwise_map]
  apply List.Pairwise.iff_of_mem
  intro before after first last
  rw [ne_eq, ne_eq, silent before first, silent after last]

/-- A change of the pointer clears the position held, so null after a trajectory leaves nothing to
hold. Null before any trajectory breaks no promise. -/
theorem holds_position_iff (heap : Ref → Trajectory K) (earlier events : List (Event Ref))
    (playable : PlayableCalls heap (earlier ++ events)) :
    HoldsPosition (iterations heap (run heap initial earlier) events) ↔
      NeverRemoved (pointersRead (seen earlier).active events) := by
  have emits := emits_iff heap earlier events playable
  have silent := iterations_silent heap earlier events playable
  refine ⟨fun holds => emits.mp holds.emits, fun kept => ⟨emits.mpr kept, ?_⟩⟩
  -- an iteration that reads null is silent, and so was the one before it
  apply List.Pairwise.isChain
  apply (emits.mpr kept).imp_of_mem
  intro before after first last goesOn removed
  have quiet : after.2 = [] := (silent after last).mpr removed
  have before_quiet : before.2 = [] := by
    by_contra spoke
    exact goesOn spoke quiet
  rw [quiet, before_quiet]

theorem ramp_calls (events : List (Event Unit)) : PlayableCalls (ramp 1) events :=
  fun _ _ => ramp_playable (by norm_num)

theorem holds_position_completed :
    HoldsPosition (iterations (ramp 1) (run (ramp 1) initial [.start 0])
      [.iteration, .setTrajectory (some ()), .iteration, .iteration]) := by
  apply (holds_position_iff _ [.start 0] _ (ramp_calls _)).mpr
  simp [NeverRemoved, pointersRead, seen, Seen.step]

theorem position_dropped :
    ¬ HoldsPosition (iterations (ramp 1) (run (ramp 1) initial [.start 0])
      [.setTrajectory (some ()), .iteration, .setTrajectory none, .iteration]) := by
  intro holds
  have kept := (emits_iff _ [.start 0] _ (ramp_calls _)).mp holds.emits
  simp [NeverRemoved, pointersRead] at kept

end RoboticsRt.RtExecutor

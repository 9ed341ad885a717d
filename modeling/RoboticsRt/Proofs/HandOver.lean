import RoboticsRt.MotionPlanning
import RoboticsRt.Planner
import RoboticsRt.Proofs.Spline
import Mathlib.Data.Rat.Defs
import Mathlib.Tactic.NormNum

/-! What the callback receives. Under the solver's contract the trajectory is the motion
that was asked for exactly when the solution is exact and has a second state: an
approximate one ends elsewhere, and a single state leaves nothing to fit. -/

namespace RoboticsRt

variable {Frame K : Type} [Field K] [LinearOrder K]

def Within (tolerance : K) (q goal : List K) : Prop :=
  (List.zipWith (fun a b => (a - b) ^ 2) q goal).sum ≤ tolerance ^ 2

/-- The solver's contract for a solution it reports. -/
structure Answers (model : RobotModel K) (problem : Problem K) (solution : Solution K) : Prop where
  starts : ∀ state, solution.path.head? = some state → configuration model state = problem.start
  ends : ∀ state, solution.path.getLast? = some state →
    (solution.status = .exactSolution ↔ Within problem.goalTolerance (configuration model state) problem.goal)

/-- The motion a request asked for, with `qGoal` the solution of its target. -/
structure AsAsked (model : RobotModel K) (request : PlanRequest Frame K) (qGoal : List K) (traj : Trajectory K) :
    Prop where
  numDofs : traj.numDofs = model.numJoints
  starts : traj.eval 0 = request.qCurrent
  ends : Within (1 / 20) (traj.eval traj.durationS) qGoal

omit [Field K] [LinearOrder K] in
theorem configuration_length (model : RobotModel K) (values : Nat → K) :
    (configuration model values).length = model.numJoints := by simp [configuration]

omit [LinearOrder K] in
theorem configuration_getD {model : RobotModel K} {q : List K} (size : q.length = model.numJoints) :
    configuration model (fun i => q.getD i 0) = q := by
  apply List.ext_getElem
  · rw [configuration_length, size]
  · intro i first last
    simp only [configuration, List.getElem_map, List.getElem_range, List.getD_eq_getElem _ _ last]

omit [LinearOrder K] in
theorem planRequest_some {model : RobotModel K} {isCollisionFree : List K → Bool} {request : PlanRequest Frame K}
    {solvers : Solvers Frame K} {traj : Trajectory K}
    (handed : planRequest model isCollisionFree request solvers = some traj) :
    ∃ qGoal, model.ik solvers.cartToJnt request.target request.qCurrent = some qGoal ∧
      (solvers.solve (problem model isCollisionFree request.qCurrent qGoal 5)).status.toBool = true := by
  unfold planRequest at handed
  split at handed
  · cases handed
  next qGoal solved =>
    refine ⟨qGoal, solved, ?_⟩
    by_contra refused
    simp [runOMPL, refused] at handed

/-- An attempt whose inverse kinematics found `qGoal` and that invoked the callback. -/
structure HandedOver (model : RobotModel K) (isCollisionFree : List K → Bool) (request : PlanRequest Frame K)
    (solvers : Solvers Frame K) (qGoal : List K) (traj : Trajectory K) : Prop where
  solved : model.ik solvers.cartToJnt request.target request.qCurrent = some qGoal
  answers : Answers model (problem model isCollisionFree request.qCurrent qGoal 5)
    (solution model isCollisionFree request qGoal solvers)
  handed : planRequest model isCollisionFree request solvers = some traj

section Attempt
variable {model : RobotModel K} {isCollisionFree : List K → Bool} {request : PlanRequest Frame K}
  {solvers : Solvers Frame K} {qGoal : List K} {traj : Trajectory K}

theorem HandedOver.fitted (given : HandedOver model isCollisionFree request solvers qGoal traj) :
    (solution model isCollisionFree request qGoal solvers).path ≠ [] ∧
      traj = fitCubicSpline ((solution model isCollisionFree request qGoal solvers).path.map (configuration model))
        request.durationS := by
  have handed := given.handed
  obtain ⟨found, solved, accepted⟩ := planRequest_some handed
  cases (given.solved.symm.trans solved)
  simp only [planRequest, given.solved, runOMPL, accepted, if_true, List.isEmpty_map] at handed
  split at handed
  · cases handed
  next some => exact ⟨fun none => some (List.isEmpty_iff.mpr none), (Option.some.inj handed).symm⟩

variable [IsStrictOrderedRing K]

private theorem fitted_motion {model : RobotModel K} {path : List (Nat → K)} {durationS : K}
    (joints : 0 < model.numJoints) (enough : 2 ≤ path.length) (positive : 0 < durationS) :
    let traj := fitCubicSpline (path.map (configuration model)) durationS
    traj.numDofs = model.numJoints ∧
      (∀ state, path.head? = some state → traj.eval 0 = configuration model state) ∧
      (∀ state, path.getLast? = some state → traj.eval traj.durationS = configuration model state) := by
  have shape : Rectangular (path.map (configuration model)) model.numJoints := by
    refine ⟨by simpa using enough, joints, ?_⟩
    intro point member
    obtain ⟨state, _, rfl⟩ := List.mem_map.mp member
    exact configuration_length model state
  have starts := fitCubicSpline_eval_zero shape positive
  have ends := fitCubicSpline_eval_duration shape positive
  have fitted := fitCubicSpline_eq shape durationS
  dsimp only
  refine ⟨by rw [fitted], ?_, ?_⟩
  · intro state first
    rw [List.head?_map, first, Option.map_some, Option.some.injEq] at starts
    exact starts.symm
  · intro state last
    have duration : (fitCubicSpline (path.map (configuration model)) durationS).durationS = durationS := by rw [fitted]
    rw [List.getLast?_map, last, Option.map_some, Option.some.injEq] at ends
    rw [duration]
    exact ends.symm

omit [LinearOrder K] [IsStrictOrderedRing K] in
private theorem fitted_empty {model : RobotModel K} {path : List (Nat → K)} (durationS : K)
    (nonempty : path ≠ []) (degenerate : path.length < 2 ∨ model.numJoints = 0) :
    fitCubicSpline (path.map (configuration model)) durationS = .empty := by
  apply fitCubicSpline_empty
  rcases degenerate with single | jointless
  · left
    rw [List.length_map]
    exact single
  · right
    cases path with
    | nil => exact absurd rfl nonempty
    | cons state rest =>
      apply List.eq_nil_of_length_eq_zero
      rw [List.map_cons, List.getD_cons_zero, configuration_length, jointless]

omit [IsStrictOrderedRing K] in
private theorem HandedOver.ends (given : HandedOver model isCollisionFree request solvers qGoal traj) :
    ∃ first last, (solution model isCollisionFree request qGoal solvers).path.head? = some first ∧
      (solution model isCollisionFree request qGoal solvers).path.getLast? = some last ∧
      configuration model first = request.qCurrent ∧
      ((solution model isCollisionFree request qGoal solvers).status = .exactSolution ↔
        Within (1 / 20) (configuration model last) qGoal) := by
  obtain ⟨current_size, goal_size⟩ := RobotModel.ik_some given.solved
  have nonempty := given.fitted.1
  obtain ⟨first, head⟩ := Option.ne_none_iff_exists'.mp (mt List.head?_eq_none_iff.mp nonempty)
  obtain ⟨last, final⟩ := Option.ne_none_iff_exists'.mp (mt List.getLast?_eq_none_iff.mp nonempty)
  refine ⟨first, last, head, final, (given.answers.starts first head).trans (configuration_getD current_size), ?_⟩
  have contract := given.answers.ends last final
  dsimp only [problem] at contract
  rwa [configuration_getD goal_size] at contract

theorem HandedOver.as_asked (given : HandedOver model isCollisionFree request solvers qGoal traj)
    (positive : 0 < request.durationS)
    (exactly : (solution model isCollisionFree request qGoal solvers).status = .exactSolution)
    (more : 2 ≤ (solution model isCollisionFree request qGoal solvers).path.length ∨ model.numJoints = 0) :
    AsAsked model request qGoal traj := by
  obtain ⟨nonempty, fitted⟩ := given.fitted
  obtain ⟨first, last, head, final, starts, ends⟩ := given.ends
  subst fitted
  by_cases moves : 2 ≤ (solution model isCollisionFree request qGoal solvers).path.length ∧ 0 < model.numJoints
  · obtain ⟨dofs, start, finish⟩ := fitted_motion moves.2 moves.1 positive
    refine ⟨dofs, (start first head).trans starts, ?_⟩
    rw [finish last final]
    exact ends.mp exactly
  · have jointless : model.numJoints = 0 := by omega
    obtain ⟨current_size, goal_size⟩ := RobotModel.ik_some given.solved
    rw [fitted_empty request.durationS nonempty (Or.inr jointless)]
    refine ⟨jointless.symm, ?_, ?_⟩
    · rw [Trajectory.eval_empty, List.eq_nil_of_length_eq_zero (current_size.trans jointless)]
    · rw [Within, Trajectory.eval_empty, List.zipWith_nil_left, List.sum_nil]
      exact sq_nonneg _

theorem HandedOver.exactly (given : HandedOver model isCollisionFree request solvers qGoal traj)
    (positive : 0 < request.durationS) (asked : AsAsked model request qGoal traj) :
    (solution model isCollisionFree request qGoal solvers).status = .exactSolution ∧
      (2 ≤ (solution model isCollisionFree request qGoal solvers).path.length ∨ model.numJoints = 0) := by
  obtain ⟨nonempty, fitted⟩ := given.fitted
  obtain ⟨first, last, _, final, _, ends⟩ := given.ends
  subst fitted
  have arrives := asked.ends
  by_cases moves : 2 ≤ (solution model isCollisionFree request qGoal solvers).path.length ∧ 0 < model.numJoints
  · rw [(fitted_motion moves.2 moves.1 positive).2.2 last final] at arrives
    exact ⟨ends.mpr arrives, Or.inl moves.1⟩
  · have dofs := asked.numDofs
    rw [fitted_empty request.durationS nonempty (by omega)] at dofs
    have jointless : model.numJoints = 0 := dofs.symm
    refine ⟨ends.mpr ?_, Or.inr jointless⟩
    rw [Within, List.eq_nil_of_length_eq_zero ((configuration_length model last).trans jointless),
      List.zipWith_nil_left, List.sum_nil]
    exact sq_nonneg _

/-- `if (solved)` takes an approximate solution for a solution, and a path of one state is fitted
to a trajectory without degrees of freedom. These two aside, what is handed over is what was asked
for. -/
theorem handed_as_asked_iff (given : HandedOver model isCollisionFree request solvers qGoal traj)
    (positive : 0 < request.durationS) :
    AsAsked model request qGoal traj ↔
      (solution model isCollisionFree request qGoal solvers).status = .exactSolution ∧
        (2 ≤ (solution model isCollisionFree request qGoal solvers).path.length ∨ model.numJoints = 0) :=
  ⟨given.exactly positive, fun ⟨exactly, more⟩ => given.as_asked positive exactly more⟩

end Attempt

/-! The callback over whole runs of the planner. -/

namespace Planner
open Transition

variable {Client R O T : Type} [DecidableEq Client]

/-- Every trajectory on its way to the callback, or there already, came out of an attempt
at its request with a usable outcome. -/
structure Planned (plan : R → O → Option T) (usable : O → Prop) (state : State Client R T) : Prop where
  handing : ∀ request traj, state.loop = .handOff request traj →
    ∃ outcome, usable outcome ∧ plan request.request outcome = some traj
  handed : ∀ request traj, .handed request traj ∈ state.log →
    ∃ outcome, usable outcome ∧ plan request.request outcome = some traj

def onlyUsable (usable : O → Prop) (_ : State Client R T) (event : Event Client R O) : Prop :=
  ∀ outcome, event = .plan outcome → usable outcome

omit [DecidableEq Client] in
private theorem Planned.frame {plan : R → O → Option T} {usable : O → Prop} {before after : State Client R T}
    (planned : Planned plan usable before)
    (loop : ∀ request traj, after.loop = .handOff request traj → before.loop = .handOff request traj)
    (log : ∀ request traj, .handed request traj ∈ after.log → .handed request traj ∈ before.log) :
    Planned plan usable after :=
  ⟨fun request traj at_ => planned.handing request traj (loop request traj at_),
    fun request traj member => planned.handed request traj (log request traj member)⟩

theorem planned (plan : R → O → Option T) (usable : O → Prop) :
    ((system plan).restrict (onlyUsable usable)).Invariant
      (Planned plan usable : State Client R T → Prop) where
  initial state start := by
    rw [start]
    exact ⟨(fun _ _ at_ => by cases at_), fun _ _ member => by cases member⟩
  step before event after planned taken := by
    obtain ⟨allowed, taken⟩ := taken
    have notified (request : Ticket R) (traj : T) (at_ : before.loop.notified = .handOff request traj) :
        before.loop = .handOff request traj := by
      cases loop : before.loop <;> simp_all [LoopPc.notified]
    cases taken with
    | plan outcome at_ =>
      refine ⟨fun request traj now => ?_, planned.handed⟩
      have usable := allowed outcome rfl
      rename_i planning
      cases result : plan planning.request outcome with
      | none => simp [result] at now
      | some made =>
        simp only [result, Option.elim_some, LoopPc.handOff.injEq] at now
        obtain ⟨rfl, rfl⟩ := now
        exact ⟨outcome, usable, result⟩
    | handOff at_ =>
      refine ⟨(fun _ _ now => by cases now), fun request traj member => ?_⟩
      rcases List.mem_append.mp member with old | new
      · exact planned.handed request traj old
      · have same := List.mem_singleton.mp new
        simp only [Entry.handed.injEq] at same
        obtain ⟨rfl, rfl⟩ := same
        exact planned.handing _ _ at_
    | callerNotify caller at_ => exact planned.frame notified fun _ _ member => member
    | notifyAll at_ => exact planned.frame notified fun _ _ member => member
    | head at_ | test at_ | check at_ =>
      apply planned.frame
      · intro request traj now
        dsimp only at now
        split at now <;> cases now
      · exact fun _ _ member => member
    | unlock at_ =>
      rename_i taken
      apply planned.frame
      · intro request traj now
        cases taken <;> cases now
      · exact fun _ _ member => member
    | take at_ =>
      apply planned.frame
      · intro request traj now
        cases now
      · intro request traj member
        simpa using member
    | lock at_ free | wake at_ free | block at_ | spurious at_ | leave at_ =>
      apply planned.frame
      · intro request traj now
        cases now
      · exact fun _ _ member => member
    | callerStore caller at_ | callerReturn caller at_ =>
      apply planned.frame
      · exact fun _ _ now => now
      · intro request traj member
        simpa using member
    | callerLock caller request at_ free | callerUnlock caller at_ | exchange at_ | join at_ done =>
      exact planned.frame (fun _ _ now => now) fun _ _ member => member

/-- The solver keeps its contract whatever it is asked. -/
def KeepsContract (model : RobotModel K) (solvers : Solvers Frame K) : Prop :=
  ∀ problem, Answers model problem (solvers.solve problem)

end Planner

/-! One joint, asked to move from 0 to 1. -/

def oneJoint : RobotModel ℚ := ⟨1, [-3], [3]⟩

def zeroToOne : PlanRequest Unit ℚ := ⟨(), 1, [0]⟩

/-- A solver that finds the target at 1 and a path from 0 to `last`. -/
def pathTo (status : PlannerStatus) (last : ℚ) : Solvers Unit ℚ where
  cartToJnt := fun _ _ => (0, fun _ => 1)
  solve := fun _ => ⟨status, [fun _ => 0, fun _ => last]⟩

private theorem pathTo_handedOver {status : PlannerStatus} (accepted : status.toBool = true) {last : ℚ}
    (contract : status = .exactSolution ↔ Within (1 / 20) [last] [1]) :
    ∃ traj, HandedOver oneJoint (fun _ => true) zeroToOne (pathTo status last) [1] traj := by
  refine ⟨fitCubicSpline [[0], [last]] 1, rfl, ⟨?_, ?_⟩, ?_⟩
  · intro state first
    cases first
    rfl
  · intro state final
    cases final
    exact contract
  · simp only [planRequest, runOMPL, pathTo, accepted, if_true]
    rfl

theorem approximate_elsewhere : ∃ traj,
    HandedOver oneJoint (fun _ => true) zeroToOne (pathTo .approximateSolution (1 / 2)) [1] traj ∧
      ¬ AsAsked oneJoint zeroToOne [1] traj := by
  have contract : PlannerStatus.approximateSolution = .exactSolution ↔ Within (1 / 20) [1 / 2] [(1 : ℚ)] :=
    iff_of_false (by decide) (by norm_num [Within])
  obtain ⟨traj, given⟩ := pathTo_handedOver rfl contract
  exact ⟨traj, given, fun asked => absurd (given.exactly (by decide +kernel) asked).1 (by decide)⟩

theorem exact_arrives : ∃ traj, AsAsked oneJoint zeroToOne [1] traj := by
  have contract : PlannerStatus.exactSolution = .exactSolution ↔ Within (1 / 20) [1] [(1 : ℚ)] := by
    norm_num [Within]
  obtain ⟨traj, given⟩ := pathTo_handedOver rfl contract
  exact ⟨traj, (handed_as_asked_iff given (by decide +kernel)).mpr ⟨rfl, Or.inl le_rfl⟩⟩

end RoboticsRt

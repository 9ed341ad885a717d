import RoboticsRt.Proofs.DemoArrival
import RoboticsRt.Proofs.Speed

/-! How far the robot moves from one tick to the next while the demo plays a trajectory: one
tick on its curve at most, and so no further than the speed of the curve allows. -/

namespace RoboticsRt.PandaDemo
open Transition

variable {Client R O K : Type} [Field K] [LinearOrder K] [DecidableEq Client] {plan : R → O → Option (Trajectory K)}

/-- Two positions of a trajectory, the second no more than a tick behind the first. -/
def OneTickApart (trajectory : Trajectory K) (before after : List K) : Prop :=
  before ≠ [] ∧ ∃ t u, t ≤ u ∧ u ≤ t + RtExecutor.tick ∧ before = trajectory.eval t ∧ after = trajectory.eval u

variable [IsStrictOrderedRing K]

theorem iteration_moves {heap : Nat → Trajectory K} {executor : RtExecutor Nat K}
    (holding : RtExecutor.Holding heap executor) {ref : Nat} (loaded : executor.localTraj = some ref)
    (active : executor.activeTraj = some ref) (some : executor.lastQ ≠ []) :
    OneTickApart (heap ref) executor.lastQ (executor.performLoopIteration heap).1.lastQ := by
  have same : executor.loadTrajectory = executor := by
    rw [RtExecutor.loadTrajectory, if_neg (Decidable.not_not.mpr (active.trans loaded.symm))]
  obtain ⟨_, moved⟩ := RtExecutor.iteration_cases heap executor
  obtain ⟨ref', loaded', t, _, _, started, late, held⟩ := holding.held some
  rw [loaded] at loaded'
  cases loaded'
  rw [same] at moved
  rcases moved with ⟨ref', active', _, sampled, _⟩ | ⟨kept, _⟩
  · rw [active] at active'
    cases active'
    exact ⟨some, t, executor.loopTimeS, started, late, held, sampled⟩
  · exact ⟨some, t, t, le_rfl, le_add_of_nonneg_right RtExecutor.tick_pos.le, held, kept.trans held⟩

/-! The whole demo. -/

def Follow (trajectories : List (Trajectory K)) (earlier later : Option Nat × List (K × List K)) : Prop :=
  ∀ ref, earlier.1 = some ref → later.1 = some ref → ∀ call ∈ earlier.2, ∀ next ∈ later.2,
    ∃ trajectory, trajectories[ref]? = some trajectory ∧ OneTickApart trajectory call.2 next.2

structure Paced (state : State Client R K) : Prop where
  launched : state.rtLoop = .prologue → state.iterations = []
  latest : ∀ entry, state.iterations.getLast? = some entry →
    entry.1 = state.executor.localTraj ∧ ∀ call ∈ entry.2, call.2 = state.executor.lastQ ∧ call.2 ≠ []
  chained : state.iterations.IsChain (Follow state.trajectories)
  position : ∀ entry ∈ state.iterations, ∀ call ∈ entry.2, call.2 ≠ []

theorem Paced.step {before after : State Client R K} {event : Event Client R O} (plays : Plays before)
    (paced : Paced before) (taken : Step plan before event after) : Paced after := by
  cases taken with
  | planner taken other => exact { paced with }
  | @handOff after request trajectory at_ taken =>
    have grows {ref : Nat} {played : Trajectory K} (found : before.trajectories[ref]? = some played) :
        (before.trajectories ++ [trajectory])[ref]? = some played := by
      rwa [List.getElem?_append_left (List.getElem?_eq_some_iff.mp found).1]
    refine ⟨paced.launched, paced.latest, ?_, paced.position⟩
    refine paced.chained.imp fun earlier later follows ref read reads call emitted next emits => ?_
    obtain ⟨played, found, apart⟩ := follows ref read reads call emitted next emits
    exact ⟨played, grows found, apart⟩
  | prologue nowNs at_ =>
    have none := paced.launched at_
    refine ⟨(fun prologue => by cases prologue), fun entry last => ?_, paced.chained, paced.position⟩
    dsimp only at last
    rw [none] at last
    cases last
  | head at_ =>
    refine { paced with launched := fun prologue => ?_ }
    dsimp only at prologue
    split at prologue <;> cases prologue
  | iteration at_ =>
    obtain ⟨emits, _⟩ := RtExecutor.iteration_cases before.heap before.executor
    have pointer := (RtExecutor.iteration_pointers before.heap before.executor).2
    refine ⟨(fun prologue => by cases prologue), fun entry last => ?_, ?_, fun entry member call called => ?_⟩
    · dsimp only at last
      rw [List.getLast?_concat] at last
      cases last
      exact ⟨pointer.symm, emits⟩
    · refine List.isChain_append.mpr ⟨paced.chained, .singleton _, fun earlier last later here => ?_⟩
      cases here
      intro ref read active call emitted next called
      obtain ⟨pointed, shown⟩ := paced.latest earlier last
      obtain ⟨position, some⟩ := shown call emitted
      have apart := iteration_moves plays.holding (pointed.symm.trans read) active (position ▸ some)
      have inside : ref < before.trajectories.length := by
        have counted := plays.active
        dsimp only at active
        rw [active] at counted
        exact counted ▸ Nat.lt_succ_self ref
      refine ⟨before.heap ref, ?_, ?_⟩
      · rw [State.heap, List.getD_eq_getElem _ _ inside, List.getElem?_eq_getElem inside]
      · rwa [position, (emits next called).1]
    · rcases List.mem_append.mp member with old | new
      · exact paced.position entry old call called
      · cases List.mem_singleton.mp new
        exact (emits call called).2
  | exchange stopped => exact { paced with }

theorem paced (plan : R → O → Option (Trajectory K)) :
    (system plan).Invariant fun state : State Client R K => Plays state ∧ Paced state := by
  refine (plays plan).strengthen ?_ fun _ _ _ plays paced taken => paced.step plays taken
  rintro state rfl
  exact ⟨fun _ => rfl, nofun, .nil, nofun⟩

/-! What the trajectories are. -/

variable {Frame : Type}

omit [DecidableEq Client] [IsStrictOrderedRing K] in
theorem delivered_fit [DecidableEq Client] {model : RobotModel K} {isCollisionFree : List K → Bool}
    {usable : Solvers Frame K → Prop} {state : State Client (PlanRequest Frame K) K}
    (reached : ((system (planRequest model isCollisionFree)).restrict (onlyUsable usable)).Reachable state)
    {ticket : Planner.Ticket (PlanRequest Frame K)} {trajectory : Trajectory K}
    (delivered : (ticket, trajectory) ∈ Planner.deliveries state.planner.log) :
    ∃ solvers qGoal, usable solvers ∧
      (solution model isCollisionFree ticket.request qGoal solvers).status.toBool = true ∧
      trajectory = fitCubicSpline ((solution model isCollisionFree ticket.request qGoal solvers).path.map
        (configuration model)) ticket.request.durationS := by
  have inside := planner_reachable usable reached
  obtain ⟨solvers, allowed, made⟩ := ((Planner.planned _ _).reachable inside).handed _ _ (Planner.mem_deliveries delivered)
  obtain ⟨qGoal, solved, accepted⟩ := planRequest_some made
  have accepted : (solution model isCollisionFree ticket.request qGoal solvers).status.toBool = true := accepted
  refine ⟨solvers, qGoal, allowed, accepted, ?_⟩
  simp only [planRequest, solved] at made
  rw [runOMPL, ← solution, if_pos accepted] at made
  split at made
  · cases made
  · exact (Option.some.inj made).symm

omit [IsStrictOrderedRing K] in
theorem emitted_shape {path : List (List K)} {dofs : Nat} (size : ∀ point ∈ path, point.length = dofs) {durationS t : K}
    (some : (fitCubicSpline path durationS).eval t ≠ []) : Rectangular path dofs := by
  have full : ¬ (path.length < 2 ∨ path.getD 0 [] = []) := by
    intro degenerate
    rw [fitCubicSpline_empty path durationS degenerate, Trajectory.eval_empty] at some
    exact some rfl
  obtain ⟨several, joints⟩ := not_or.mp full
  have inside : 0 < path.length := by omega
  rw [List.getD_eq_getElem _ _ inside] at joints
  refine ⟨by omega, ?_, size⟩
  rw [← size _ (List.getElem_mem inside)]
  exact List.length_pos_iff.mpr joints

/-- Each joint's longest step on the path, `factor` times as fast, limits how far it gets in the time. -/
def Gentle (factor : K) (path : List (List K)) (durationS elapsed : K) (before after : List K) : Prop :=
  ∀ j < before.length, ∀ step, StepsWithin (path.length - 1) (fun i => waypoint path i j) step →
    |after.getD j 0 - before.getD j 0| ≤ factor * step / segH path.length durationS 0 * elapsed

theorem OneTickApart.gentle {path : List (List K)} {dofs : Nat} (size : ∀ point ∈ path, point.length = dofs) {durationS : K}
    (positive : 0 < durationS) {before after : List K}
    (apart : OneTickApart (fitCubicSpline path durationS) before after) :
    Gentle (3 / 2) path durationS RtExecutor.tick before after := by
  obtain ⟨some, t, u, order, close, rfl, rfl⟩ := apart
  have shape := emitted_shape size some
  intro j inside step steps
  have dof : j < dofs := by
    rwa [Trajectory.eval_length, fitCubicSpline_eq shape] at inside
  have nonneg : 0 ≤ step := (abs_nonneg _).trans (steps 0 (by have enough := shape.enough; omega))
  have rate : 0 ≤ 3 / 2 * step / segH path.length durationS 0 :=
    div_nonneg (by linarith) (segH_pos shape.enough positive 0).le
  refine (speed_bounded shape positive dof steps t u).trans (mul_le_mul_of_nonneg_left ?_ rate)
  rw [abs_of_nonneg (sub_nonneg.mpr order)]
  linarith

/-- The clock of the loop goes a tick at a time, and past the end the position is held, so two
calls are a tick apart on the curve at most. The curve is no faster than one and a half times the
longest step between two waypoints, taken in the time of a segment. -/
theorem moves_gently {model : RobotModel K} {isCollisionFree : List K → Bool}
    {state : State Client (PlanRequest Frame K) K}
    (reached : (system (planRequest model isCollisionFree)).Reachable state)
    {earlier later : Option Nat × List (K × List K)} (consecutive : [earlier, later] <:+: state.iterations) {ref : Nat}
    (read : earlier.1 = some ref) (reads : later.1 = some ref) {call next : K × List K} (emitted : call ∈ earlier.2)
    (emits : next ∈ later.2) :
    ∃ ticket path, (Planner.deliveries state.planner.log)[ref]? =
        some (ticket, fitCubicSpline path ticket.request.durationS) ∧
      OneTickApart (fitCubicSpline path ticket.request.durationS) call.2 next.2 ∧
      (0 < ticket.request.durationS → Gentle (3 / 2) path ticket.request.durationS RtExecutor.tick call.2 next.2) := by
  obtain ⟨plays, paced⟩ := (paced _).reachable reached
  have pair := paced.chained.infix consecutive
  obtain ⟨trajectory, found, apart⟩ := pair.rel ref read reads call emitted next emits
  rw [← plays.made, List.getElem?_map, Option.map_eq_some_iff] at found
  obtain ⟨⟨ticket, trajectory⟩, delivered, rfl⟩ := found
  have inside : ((system (planRequest model isCollisionFree)).restrict (onlyUsable fun _ => True)).Reachable state :=
    reached.to_restrict fun _ _ _ _ => trivial
  obtain ⟨solvers, qGoal, _, _, rfl⟩ := delivered_fit inside (List.mem_of_getElem? delivered)
  have size : ∀ point ∈ (solution model isCollisionFree ticket.request qGoal solvers).path.map (configuration model),
      point.length = model.numJoints := by
    intro point member
    obtain ⟨values, _, rfl⟩ := List.mem_map.mp member
    exact configuration_length model values
  exact ⟨ticket, _, delivered, apart, fun positive => apart.gentle size positive⟩

theorem straight_emits {R O : Type} {plan : R → O → Option (Trajectory ℚ)} {state : State Unit R ℚ}
    (reached : (system plan).Reachable state) {ref : Nat} (active : state.executor.activeTraj = some ref)
    (here : state.heap ref = fitCubicSpline [[0], [1]] (1 / 1000)) :
    ∃ call, (state.executor.performLoopIteration state.heap).2.onTick = [call] := by
  have shape : Rectangular [[0], [(1 : ℚ)]] 1 := ⟨by decide, by decide, by decide⟩
  have playable : RtExecutor.Playable (fitCubicSpline [[0], [(1 : ℚ)]] (1 / 1000)) :=
    RtExecutor.fitted_playable shape (by norm_num)
  rw [← here] at playable
  exact ⟨_, (((follows _).reachable reached).2.tracks.plays active playable).1⟩

theorem two_ticks : ∃ (state : State Unit (PlanRequest Unit ℚ) ℚ) (ref : Nat) (call next : ℚ × List ℚ),
    (system oneJointPlan).Reachable state ∧ state.iterations = [(some ref, [call]), (some ref, [next])] ∧
      ∃ trajectory, Planner.deliveries state.planner.log = [(⟨0, oneTick⟩, trajectory)] := by
  obtain ⟨state, reached, _, delivered, loop, running, none⟩ := answered
  have first := reached.of_restrict
  obtain ⟨ref, active, here⟩ := ((plays _).reachable first).newest (congrArg List.getLast? delivered)
  have second := (first.step (.iteration loop)).step (.head rfl)
  have still := (RtExecutor.iteration_pointers state.heap state.executor).1.trans active
  obtain ⟨call, emitted⟩ := straight_emits first active here
  obtain ⟨next, called⟩ := straight_emits second still here
  refine ⟨_, ref, call, next, second.step (.iteration (if_pos running)), ?_, _, delivered⟩
  dsimp only at called ⊢
  rw [called, still, none, active, emitted]
  rfl

theorem one_request_moves : ∃ (state : State Unit (PlanRequest Unit ℚ) ℚ) (path : List (List ℚ)) (call next : ℚ × List ℚ),
    state.ticks = [call, next] ∧ OneTickApart (fitCubicSpline path (1 / 1000)) call.2 next.2 ∧
      Gentle (3 / 2) path (1 / 1000) RtExecutor.tick call.2 next.2 := by
  obtain ⟨state, ref, call, next, reached, both, _, delivered⟩ := two_ticks
  have consecutive : [(some ref, [call]), (some ref, [next])] <:+: state.iterations := both ▸ List.infix_rfl
  obtain ⟨ticket, path, made, apart, gentle⟩ := moves_gently reached consecutive rfl rfl
    (List.mem_singleton_self call) (List.mem_singleton_self next)
  rw [delivered] at made
  obtain rfl : ticket = ⟨0, oneTick⟩ := congrArg Prod.fst (List.mem_singleton.mp (List.mem_of_getElem? made))
  refine ⟨state, path, call, next, ?_, apart, gentle (by norm_num [oneTick])⟩
  rw [State.ticks, both]
  rfl

end RoboticsRt.PandaDemo

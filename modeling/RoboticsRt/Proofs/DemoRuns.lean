import RoboticsRt.PandaDemo
import RoboticsRt.Proofs.HandOver
import RoboticsRt.Proofs.Mailbox
import RoboticsRt.Proofs.Playback

/-! Whole runs of the demo, over every interleaving of its threads: where the emitted positions
come from, in which order the trajectories play, and what is left to happen once the planner
has stopped. -/

namespace RoboticsRt.Planner

variable {Client R O T : Type}

def Entry.delivered? : Entry R T → Option (Ticket R × T)
  | .handed request trajectory => some (request, trajectory)
  | _ => none

def deliveries (log : List (Entry R T)) : List (Ticket R × T) := log.filterMap Entry.delivered?

theorem deliveries_append (log entries : List (Entry R T)) :
    deliveries (log ++ entries) = deliveries log ++ deliveries entries := List.filterMap_append

theorem deliveries_requests (log : List (Entry R T)) : (deliveries log).map Prod.fst = handOffs log := by
  rw [deliveries, handOffs, List.map_filterMap]
  refine List.filterMap_congr fun entry _ => ?_
  cases entry <;> rfl

theorem mem_deliveries {log : List (Entry R T)} {request : Ticket R} {trajectory : T}
    (delivered : (request, trajectory) ∈ deliveries log) : .handed request trajectory ∈ log := by
  obtain ⟨entry, member, found⟩ := List.mem_filterMap.mp delivered
  cases entry with
  | handed _ _ =>
    cases found
    exact member
  | stored _ => cases found
  | taken _ => cases found
  | returned _ => cases found

variable [DecidableEq Client] {plan : R → O → Option T} {before after : State Client R T} {event : Event Client R O}

theorem Step.deliveries (taken : Step plan before event after) (other : event ≠ .handOff) :
    deliveries after.log = Planner.deliveries before.log := by
  cases taken with
  | handOff at_ => exact absurd rfl other
  | take at_ => cases before.pending <;> simp [Planner.deliveries, Entry.delivered?]
  | callerStore caller at_ => simp [Planner.deliveries, Entry.delivered?]
  | callerReturn caller at_ => simp [Planner.deliveries, Entry.delivered?]
  | _ => rfl

theorem Step.delivers {request : Ticket R} {trajectory : T} (at_ : before.loop = .handOff request trajectory)
    (taken : Step plan before .handOff after) :
    Planner.deliveries after.log = Planner.deliveries before.log ++ [(request, trajectory)] := by
  cases taken with
  | handOff again =>
    rw [at_] at again
    cases again
    simp [Planner.deliveries, Entry.delivered?]

theorem Step.stays_returned (taken : Step plan before event after) (returned : before.stopper = .returned) :
    after.stopper = .returned := by
  cases taken with
  | exchange at_ | notifyAll at_ | join at_ _ =>
    simp [returned] at at_
  | _ => exact returned

structure Halted (state : State Client R T) : Prop where
  unasked : state.stopper = .idle → state.running = true
  exited : state.stopper = .returned → state.loop = .exited

theorem Halted.step (halted : Halted before) (taken : Step plan before event after) : Halted after := by
  have moved {pc : LoopPc R T} (at_ : before.loop = pc) (still : pc ≠ .exited) (returned : before.stopper = .returned) :
      False := still (at_.symm.trans (halted.exited returned))
  cases taken with
  | exchange at_ =>
    rw [halted.unasked at_]
    exact ⟨nofun, nofun⟩
  | notifyAll at_ => exact ⟨nofun, nofun⟩
  | join at_ done => exact ⟨nofun, fun _ => done⟩
  | callerNotify caller at_ =>
    refine ⟨halted.unasked, fun returned => ?_⟩
    dsimp only
    rw [halted.exited returned]
    rfl
  | callerLock | callerStore | callerUnlock | callerReturn => exact ⟨halted.unasked, halted.exited⟩
  | head at_ | lock at_ | test at_ | block at_ | spurious at_ | wake at_ | check at_ | leave at_ | take at_ | unlock at_
  | plan _ at_ | handOff at_ => exact ⟨halted.unasked, fun returned => (moved at_ nofun returned).elim⟩

theorem halted (plan : R → O → Option T) : (system plan).Invariant (Halted : State Client R T → Prop) where
  initial state start := by
    subst start
    exact ⟨fun _ => rfl, fun impossible => by cases impossible⟩
  step _ _ _ halted taken := halted.step taken

end RoboticsRt.Planner

namespace RoboticsRt.PandaDemo
open Transition

variable {Client R O K : Type} [Field K] [LinearOrder K] [DecidableEq Client] {plan : R → O → Option (Trajectory K)}

/-- The last flag counts, and nothing else may be given. -/
theorem parseMode_iff {args : List String} {mode : Mode} : parseMode args = some mode ↔
    (∀ arg ∈ args, arg = "--gpu" ∨ arg = "--cpu") ∧
      mode = if args.getLast? = some "--gpu" then .GPU else .CPU := by
  induction args using List.reverseRecOn generalizing mode with
  | nil => simp [parseMode, eq_comm]
  | append_singleton args arg ih =>
    have split : parseMode (args ++ [arg]) = some mode ↔ (∃ earlier, parseMode args = some earlier) ∧
        (if arg = "--gpu" then some .GPU else if arg = "--cpu" then some .CPU else none) = some mode := by
      simp [parseMode, List.foldlM_append, Option.bind_eq_some_iff]
    rw [split]
    simp only [ih, exists_and_left, exists_eq, and_true, List.forall_mem_append, List.forall_mem_singleton,
      List.getLast?_concat, Option.some.injEq, and_assoc]
    refine and_congr_right fun _ => ?_
    by_cases gpu : arg = "--gpu"
    · simp [gpu, eq_comm]
    · by_cases cpu : arg = "--cpu" <;> simp [gpu, cpu, eq_comm]

/-! The planner inside the demo. -/

def onlyUsable (usable : O → Prop) (_ : State Client R K) (event : Event Client R O) : Prop :=
  ∀ outcome, event = .planner (.plan outcome) → usable outcome

theorem planner_reachable (usable : O → Prop) {state : State Client R K}
    (reached : ((system plan).restrict (onlyUsable usable)).Reachable state) :
    ((Planner.system plan).restrict (Planner.onlyUsable usable)).Reachable state.planner := by
  have invariant : ((system plan).restrict (onlyUsable usable)).Invariant fun state : State Client R K =>
      ((Planner.system plan).restrict (Planner.onlyUsable usable)).Reachable state.planner := by
    constructor
    · rintro state rfl
      exact .initial rfl
    · rintro before event after reached ⟨allowed, taken⟩
      cases taken with
      | planner taken other =>
        refine reached.step ⟨fun outcome same => allowed outcome ?_, taken⟩
        rw [same]
      | handOff at_ taken => exact reached.step ⟨(fun _ same => by cases same), taken⟩
      | prologue | head | iteration | exchange => exact reached
  exact invariant.reachable reached

/-! What the iterations emit. -/

def OnPath (trajectory : Trajectory K) (q : List K) : Prop :=
  ∃ t, 0 ≤ t ∧ t ≤ trajectory.durationS ∧ q = trajectory.eval t

omit [DecidableEq Client] in
theorem OnPath.of_passed {trajectory : Trajectory K} {clock : K} {q : List K}
    (passed : RtExecutor.JustPassed trajectory clock q) : OnPath trajectory q := by
  obtain ⟨t, nonneg, within, _, _, same⟩ := passed
  exact ⟨t, nonneg, within, same⟩

/-! What plays, and in which order. -/

/-- The objects a pointer says are there: null is before all of them. -/
def age (pointer : Option Nat) : Nat := pointer.elim 0 (· + 1)

structure Plays (state : State Client R K) : Prop where
  made : (Planner.deliveries state.planner.log).map Prod.snd = state.trajectories
  active : age state.executor.activeTraj = state.trajectories.length
  loaded : age state.executor.localTraj ≤ state.trajectories.length
  holding : RtExecutor.Holding state.heap state.executor
  ordered : (state.iterations.map fun entry => age entry.1).Pairwise (· ≤ ·)
  past : ∀ entry ∈ state.iterations, age entry.1 ≤ state.trajectories.length
  emitted : ∀ entry ∈ state.iterations, ∀ tick ∈ entry.2,
    ∃ ref trajectory, entry.1 = some ref ∧ state.trajectories[ref]? = some trajectory ∧ OnPath trajectory tick.2

theorem Plays.handOff {state : State Client R K} {after : Planner.State Client R (Trajectory K)}
    {request : Planner.Ticket R} {trajectory : Trajectory K} (plays : Plays state)
    (at_ : state.planner.loop = .handOff request trajectory)
    (taken : Planner.Step plan state.planner .handOff after) :
    Plays { state with
      planner := after
      trajectories := state.trajectories ++ [trajectory]
      executor := state.executor.setTrajectory (some state.trajectories.length) } := by
  have grows : state.trajectories.length ≤ (state.trajectories ++ [trajectory]).length := by simp
  refine ⟨?_, ?_, plays.loaded.trans grows, ⟨plays.holding.clock, fun some => ?_⟩, plays.ordered,
    fun entry member => (plays.past entry member).trans grows, fun entry member tick listed => ?_⟩
  · rw [Planner.Step.delivers at_ taken, List.map_append, plays.made]
    rfl
  · simp [age, RtExecutor.setTrajectory]
  · obtain ⟨ref, loaded, passed⟩ := plays.holding.held some
    refine ⟨ref, loaded, ?_⟩
    have inside : ref < state.trajectories.length := by
      have counted := plays.loaded
      rwa [loaded] at counted
    rwa [State.heap, List.getD_append _ _ _ _ inside]
  · obtain ⟨ref, played, read, found, path⟩ := plays.emitted entry member tick listed
    have inside := (List.getElem?_eq_some_iff.mp found).1
    exact ⟨ref, played, read, by rwa [List.getElem?_append_left inside], path⟩

omit [DecidableEq Client] in
theorem Plays.iteration [IsStrictOrderedRing K] {state : State Client R K} (plays : Plays state) :
    Plays { state with
      executor := (state.executor.performLoopIteration state.heap).1
      rtLoop := .head
      output := (state.executor.performLoopIteration state.heap).2.onTick.foldl Output.onTick state.output
      iterations := state.iterations ++
        [(state.executor.activeTraj, (state.executor.performLoopIteration state.heap).2.onTick)] } := by
  obtain ⟨kept, loads⟩ := RtExecutor.iteration_pointers state.heap state.executor
  obtain ⟨holding, emits⟩ := plays.holding.iteration
  refine ⟨plays.made, ?_, ?_, ⟨holding.clock, holding.held⟩, ?_, ?_, ?_⟩
  · exact (congrArg age kept).trans plays.active
  · exact (congrArg age loads).trans_le plays.active.le
  · rw [List.map_append, List.pairwise_append]
    refine ⟨plays.ordered, List.pairwise_singleton _ _, fun earlier member later last => ?_⟩
    obtain ⟨entry, listed, rfl⟩ := List.mem_map.mp member
    cases List.mem_singleton.mp last
    exact (plays.past entry listed).trans_eq plays.active.symm
  · intro entry member
    rcases List.mem_append.mp member with old | new
    · exact plays.past entry old
    · cases List.mem_singleton.mp new
      exact plays.active.le
  · intro entry member tick listed
    rcases List.mem_append.mp member with old | new
    · exact plays.emitted entry old tick listed
    · cases List.mem_singleton.mp new
      obtain ⟨ref, active, passed⟩ := emits tick listed
      have inside : ref < state.trajectories.length := by
        have counted := plays.active
        rw [active] at counted
        exact counted ▸ Nat.lt_succ_self ref
      refine ⟨ref, state.heap ref, active, ?_, .of_passed passed⟩
      rw [State.heap, List.getD_eq_getElem _ _ inside, List.getElem?_eq_getElem inside]

theorem plays [IsStrictOrderedRing K] (plan : R → O → Option (Trajectory K)) :
    (system plan).Invariant (Plays : State Client R K → Prop) where
  initial state start := by
    subst start
    refine ⟨rfl, rfl, le_rfl, .empty rfl rfl, .nil, nofun, nofun⟩
  step before event after plays taken := by
    cases taken with
    | planner taken other => exact { plays with made := (congrArg _ (taken.deliveries other)).trans plays.made }
    | handOff at_ taken => exact plays.handOff at_ taken
    | prologue nowNs at_ => exact { plays with holding := .empty rfl rfl }
    | head at_ => exact { plays with }
    | iteration at_ => exact plays.iteration
    | exchange stopped => exact { plays with }

/-- The trajectories play in the order of the requests they answer, never an older one after a
newer one, and every position is one of the trajectory an attempt at a stored request made. -/
structure InRequestOrder (plan : R → O → Option (Trajectory K)) (state : State Client R K) : Prop where
  positions : ∀ entry ∈ state.iterations, ∀ tick ∈ entry.2, ∃ ref request trajectory outcome, entry.1 = some ref ∧
    (Planner.deliveries state.planner.log)[ref]? = some (request, trajectory) ∧
    request ∈ Planner.stores state.planner.log ∧ plan request.request outcome = some trajectory ∧
    OnPath trajectory tick.2
  pointers : state.iterations.Pairwise fun earlier later => ∀ ref, earlier.1 = some ref →
    ∃ ref', later.1 = some ref' ∧ ref ≤ ref'
  requests : (Planner.deliveries state.planner.log).Pairwise fun earlier later => earlier.1.stamp < later.1.stamp

/-- A trajectory handed over while another plays replaces it at the next iteration, and one
replaced before an iteration never plays. What plays does so in the order of the requests,
whatever the interleaving. -/
theorem plays_in_request_order [IsStrictOrderedRing K] (plan : R → O → Option (Trajectory K))
    {state : State Client R K} (reached : (system plan).Reachable state) : InRequestOrder plan state := by
  have plays := (plays plan).reachable reached
  have inside := planner_reachable (fun _ => True) (reached.to_restrict fun _ _ _ _ => trivial)
  have made := ((Planner.planned plan fun _ => True).reachable inside).handed
  have ledger := (Planner.ledger plan).reachable inside.of_restrict
  have among : ((Planner.deliveries state.planner.log).map Prod.fst).Sublist (Planner.stores state.planner.log) := by
    rw [Planner.deliveries_requests]
    have handed := (List.sublist_append_left _ _).trans ledger.handed
    exact handed.trans ((List.sublist_append_left _ _).trans ledger.taken)
  refine ⟨fun entry member tick listed => ?_, ?_, ?_⟩
  · obtain ⟨ref, trajectory, read, found, path⟩ := plays.emitted entry member tick listed
    rw [← plays.made, List.getElem?_map, Option.map_eq_some_iff] at found
    obtain ⟨⟨request, trajectory⟩, delivered, rfl⟩ := found
    have listed := List.mem_of_getElem? delivered
    obtain ⟨outcome, _, planned⟩ := made request trajectory (Planner.mem_deliveries listed)
    exact ⟨ref, request, trajectory, outcome, read, delivered, among.subset (List.mem_map_of_mem listed), planned, path⟩
  · refine (List.pairwise_map.mp plays.ordered).imp fun {earlier later} order ref read => ?_
    rw [read] at order
    cases pointer : later.1 with
    | none =>
      rw [pointer] at order
      exact absurd order (Nat.not_succ_le_zero ref)
    | some ref' =>
      rw [pointer] at order
      exact ⟨ref', rfl, Nat.le_of_succ_le_succ order⟩
  · have increasing := (Planner.stores_increasing ledger.justified).sublist among
    rwa [List.pairwise_map] at increasing

def State.ticks (state : State Client R K) : List (K × List K) := state.iterations.flatMap Prod.snd

/-- The console shows every tenth tick, the first one included. -/
structure Shown (ticks : List (K × List K)) (output : Output K) : Prop where
  counter : output.outputCounter = ticks.length
  printed : output.printed = (ticks.zipIdx.filter fun tick => tick.2 % 10 == 0).map Prod.fst

omit [Field K] [LinearOrder K] in
theorem Shown.onTick {ticks : List (K × List K)} {output : Output K} (shown : Shown ticks output) (tick : K × List K) :
    Shown (ticks ++ [tick]) (output.onTick tick) := by
  refine ⟨by simp [Output.onTick, shown.counter], ?_⟩
  rw [List.zipIdx_append, List.filter_append, List.map_append, ← shown.printed, Output.onTick, shown.counter]
  by_cases tenth : ticks.length % 10 = 0 <;> simp [tenth]

omit [Field K] [LinearOrder K] in
theorem Shown.onTicks {ticks more : List (K × List K)} {output : Output K} (shown : Shown ticks output) :
    Shown (ticks ++ more) (more.foldl Output.onTick output) := by
  induction more generalizing ticks output with
  | nil => rwa [List.append_nil]
  | cons tick rest ih =>
    rw [List.append_cons]
    exact ih (shown.onTick tick)

theorem printed_every_tenth (plan : R → O → Option (Trajectory K)) :
    (system plan).Invariant fun state : State Client R K => Shown state.ticks state.output where
  initial state start := by
    subst start
    exact ⟨rfl, rfl⟩
  step before event after shown taken := by
    cases taken with
    | iteration at_ =>
      rw [State.ticks, List.flatMap_append, List.flatMap_singleton]
      exact shown.onTicks
    | planner | handOff | prologue | head | exchange => exact shown

/-! One request, answered. -/

def oneTick : PlanRequest Unit ℚ := ⟨(), 1 / 1000, [0]⟩

def straightLine : Solvers Unit ℚ where
  cartToJnt := fun _ _ => (0, fun _ => 1)
  solve := fun problem =>
    if problem.start.length = 1 ∧ problem.goal.length = 1 then
      ⟨.exactSolution, [fun i => problem.start.getD i 0, fun i => problem.goal.getD i 0]⟩
    else ⟨.invalidStart, []⟩

theorem straightLine_keeps : Planner.KeepsContract oneJoint straightLine := by
  intro problem
  by_cases sizes : problem.start.length = 1 ∧ problem.goal.length = 1
  · have found : straightLine.solve problem =
        ⟨.exactSolution, [fun i => problem.start.getD i 0, fun i => problem.goal.getD i 0]⟩ := if_pos sizes
    rw [found]
    constructor
    · intro state first
      cases first
      exact configuration_getD sizes.1
    · intro state final
      cases final
      have arrives : configuration oneJoint (fun i => problem.goal.getD i 0) = problem.goal := configuration_getD sizes.2
      obtain ⟨goal, same⟩ := List.length_eq_one_iff.mp sizes.2
      refine iff_of_true rfl ?_
      change Within _ (configuration oneJoint fun i => problem.goal.getD i 0) _
      rw [arrives, same]
      simp [Within, sq_nonneg]
  · have refused : straightLine.solve problem = ⟨.invalidStart, []⟩ := if_neg sizes
    rw [refused]
    constructor
    · intro state first
      cases first
    · intro state final
      cases final

abbrev oneJointPlan : PlanRequest Unit ℚ → Solvers Unit ℚ → Option (Trajectory ℚ) := planRequest oneJoint fun _ => true

abbrev oneJointDemo : System (State Unit (PlanRequest Unit ℚ) ℚ) (Event Unit (PlanRequest Unit ℚ) (Solvers Unit ℚ)) :=
  (system oneJointPlan).restrict (onlyUsable (Planner.KeepsContract oneJoint))

theorem planner_step {plan : R → O → Option (Trajectory K)} {usable : O → Prop} {state : State Client R K}
    {event : Planner.Event Client R O} {after : Planner.State Client R (Trajectory K)}
    (reached : ((system plan).restrict (onlyUsable usable)).Reachable state)
    (taken : Planner.Step plan state.planner event after) (other : event ≠ .handOff)
    (allowed : ∀ outcome, event = .plan outcome → usable outcome) :
    ((system plan).restrict (onlyUsable usable)).Reachable { state with planner := after } := by
  refine reached.step ⟨fun outcome same => allowed outcome ?_, .planner taken other⟩
  injection same

/-- Between two requests: the planner's thread is back at its head, and so many were answered. -/
structure Resting (state : State Unit R K) (delivered : List (Planner.Ticket R × Trajectory K)) : Prop where
  loop : state.planner.loop = .head
  running : state.planner.running = true
  free : state.planner.mutex = none
  unread : state.planner.pending = none
  idle : state.planner.stopper = .idle
  client : state.planner.clients () = .idle
  stored : (Planner.stores state.planner.log).length = delivered.length
  delivered : Planner.deliveries state.planner.log = delivered

theorem Resting.answers {plan : R → O → Option (Trajectory K)} {usable : O → Prop} {state : State Unit R K}
    {delivered : List (Planner.Ticket R × Trajectory K)} (resting : Resting state delivered)
    (r : ((system plan).restrict (onlyUsable usable)).Reachable state) {request : R} {outcome : O}
    {trajectory : Trajectory K} (allowed : usable outcome) (made : plan request outcome = some trajectory) :
    ∃ after : State Unit R K, ((system plan).restrict (onlyUsable usable)).Reachable after ∧
      Resting after (delivered ++ [(⟨delivered.length, request⟩, trajectory)]) ∧ after.rtLoop = state.rtLoop ∧
      after.rtRunning = state.rtRunning ∧ after.iterations = state.iterations := by
  let ticket : Planner.Ticket R := ⟨(Planner.stores state.planner.log).length, request⟩
  -- the call
  have r := planner_step r (.callerLock () request resting.client resting.free) nofun nofun
  have r := planner_step r (.callerStore () rfl) nofun nofun
  have r := planner_step r (.callerUnlock () rfl) nofun nofun
  have r := planner_step r (.callerNotify () rfl) nofun nofun
  have r := planner_step r (.callerReturn () rfl) nofun nofun
  -- the loop
  have head : state.planner.loop.notified = .head := by
    rw [resting.loop]
    rfl
  have r := planner_step r (.head head) nofun nofun
  have r := planner_step r (.lock (if_pos resting.running) rfl) nofun nofun
  have r := planner_step r (.test rfl) nofun nofun
  have r := planner_step r (.check (if_pos (Bool.or_true _))) nofun nofun
  have r := planner_step r (.take (if_pos resting.running)) nofun nofun
  have r := planner_step r (.unlock rfl) nofun nofun
  have r := planner_step r (.plan outcome rfl) nofun fun _ same => by cases same; exact allowed
  have answer : (plan request outcome).elim Planner.LoopPc.head (.handOff ticket) = .handOff ticket trajectory := by
    rw [made]
    rfl
  have r := r.step ⟨(fun _ same => by cases same), .handOff answer (.handOff answer)⟩
  refine ⟨_, r, ⟨rfl, resting.running, rfl, rfl, resting.idle, rfl, ?_, ?_⟩, rfl, rfl, rfl⟩
  · change (Planner.stores ((((state.planner.log ++ [.stored ticket]) ++ [.returned ticket]) ++ [.taken ticket]) ++
      [.handed ticket trajectory])).length = _
    simp only [Planner.stores_append, List.length_append, resting.stored]
    rfl
  · change Planner.deliveries ((((state.planner.log ++ [.stored ticket]) ++ [.returned ticket]) ++ [.taken ticket]) ++
      [.handed ticket trajectory]) = _
    simp only [Planner.deliveries_append, resting.delivered, ticket, resting.stored]
    exact congrArg (· ++ [_]) (by simp [Planner.deliveries, Planner.Entry.delivered?])

omit [LinearOrder K] in
theorem resting_initial : Resting (initial : State Unit R K) [] := ⟨rfl, rfl, rfl, rfl, rfl, rfl, rfl, rfl⟩

theorem handed {plan : R → O → Option (Trajectory K)} {usable : O → Prop} {request : R} {outcome : O}
    {trajectory : Trajectory K} (allowed : usable outcome) (made : plan request outcome = some trajectory) :
    ∃ state : State Unit R K, ((system plan).restrict (onlyUsable usable)).Reachable state ∧
      Resting state [(⟨0, request⟩, trajectory)] ∧ state.rtLoop = .iteration ∧ state.rtRunning = true ∧
      state.iterations = [] := by
  obtain ⟨state, r, resting, prologue, running, none⟩ := resting_initial.answers (.initial rfl) allowed made
  have r := r.step ⟨(fun _ same => by cases same), .prologue 0 prologue⟩
  have r := r.step ⟨(fun _ same => by cases same), .head rfl⟩
  exact ⟨_, r, { resting with }, if_pos running, running, none⟩

theorem answered : ∃ state, oneJointDemo.Reachable state ∧ state.planner.stopper = .returned ∧
    Planner.deliveries state.planner.log = [(⟨0, oneTick⟩, fitCubicSpline [[0], [1]] (1 / 1000))] ∧
    state.rtLoop = .iteration ∧ state.rtRunning = true ∧ state.iterations = [] := by
  have made : oneJointPlan oneTick straightLine = some (fitCubicSpline [[0], [1]] (1 / 1000)) := rfl
  obtain ⟨state, r, resting, iterating, executing, none⟩ := handed straightLine_keeps made
  have r := planner_step r (.exchange resting.idle) nofun nofun
  have r := planner_step r (.notifyAll (if_pos resting.running)) nofun nofun
  have awake : state.planner.loop.notified = .head := by
    rw [resting.loop]
    rfl
  have r := planner_step r (.head awake) nofun nofun
  have r := planner_step r (.join rfl rfl) nofun nofun
  exact ⟨_, r, rfl, resting.delivered, iterating, executing, none⟩

omit [DecidableEq Client] in
theorem Plays.pointer {state : State Client R K} (plays : Plays state) {n : Nat}
    (count : (Planner.deliveries state.planner.log).length = n + 1) : state.executor.activeTraj = some n := by
  have counted := plays.active
  rw [← plays.made, List.length_map, count] at counted
  cases active : state.executor.activeTraj with
  | none =>
    rw [active] at counted
    cases counted
  | some ref =>
    rw [active] at counted
    exact congrArg some (Nat.succ.inj counted)

omit [DecidableEq Client] in
theorem Plays.newest {state : State Client R K} (plays : Plays state) {request : Planner.Ticket R}
    {trajectory : Trajectory K} (last : (Planner.deliveries state.planner.log).getLast? = some (request, trajectory)) :
    ∃ ref, state.executor.activeTraj = some ref ∧ state.heap ref = trajectory := by
  obtain ⟨earlier, split⟩ := List.getLast?_eq_some_iff.mp last
  have count : (Planner.deliveries state.planner.log).length = earlier.length + 1 := by
    rw [split, List.length_append]
    rfl
  refine ⟨earlier.length, plays.pointer count, ?_⟩
  rw [State.heap, ← plays.made, split, List.map_append, List.getD_append_right _ _ _ _ (by simp)]
  simp

/-- The executor plays the first answer, the second comes, and it plays that. -/
theorem two_requests_play : ∃ (state : State Unit (PlanRequest Unit ℚ) ℚ) (calls calls' : List (ℚ × List ℚ)),
    state.iterations = [(some 0, calls), (some 1, calls')] ∧ InRequestOrder oneJointPlan state := by
  have made : oneJointPlan oneTick straightLine = some (fitCubicSpline [[0], [1]] (1 / 1000)) := rfl
  obtain ⟨state, r, resting, iterating, executing, none⟩ := handed straightLine_keeps made
  have first := ((plays _).reachable r.of_restrict).pointer (congrArg List.length resting.delivered)
  have r := r.step ⟨(fun _ same => by cases same), .iteration iterating⟩
  have rested : Resting { state with
      executor := (state.executor.performLoopIteration state.heap).1
      rtLoop := .head
      output := (state.executor.performLoopIteration state.heap).2.onTick.foldl Output.onTick state.output
      iterations := state.iterations ++
        [(state.executor.activeTraj, (state.executor.performLoopIteration state.heap).2.onTick)] } _ := { resting with }
  obtain ⟨later, r, resting', waiting, running, seen⟩ := rested.answers r straightLine_keeps made
  have second := ((plays _).reachable r.of_restrict).pointer (congrArg List.length resting'.delivered)
  have r := r.step ⟨(fun _ same => by cases same), .head waiting⟩
  have r := r.step ⟨(fun _ same => by cases same), .iteration (if_pos (running.trans executing))⟩
  have order := plays_in_request_order oneJointPlan r.of_restrict
  refine ⟨_, (state.executor.performLoopIteration state.heap).2.onTick,
    (later.executor.performLoopIteration later.heap).2.onTick, ?_, order⟩
  change later.iterations ++ [(later.executor.activeTraj, _)] = _
  rw [seen, none, first, second]
  rfl

/-! After `planner.stop()`. -/

structure Settled (before after : State Client R K) : Prop where
  stopped : after.planner.stopper = .returned
  trajectories : after.trajectories = before.trajectories
  active : after.executor.activeTraj = before.executor.activeTraj
  deliveries : Planner.deliveries after.planner.log = Planner.deliveries before.planner.log
  iterations : ∃ more, after.iterations = before.iterations ++ more ∧
    ∀ entry ∈ more, entry.1 = before.executor.activeTraj

theorem Settled.step {before state after : State Client R K} {event : Event Client R O}
    (settled : Settled before state) (halted : Planner.Halted state.planner) (taken : Step plan state event after) :
    Settled before after := by
  obtain ⟨more, grown, same⟩ := settled.iterations
  cases taken with
  | planner taken other =>
    refine { settled with
      stopped := taken.stays_returned settled.stopped
      deliveries := (taken.deliveries other).trans settled.deliveries }
  | handOff at_ taken =>
    rw [halted.exited settled.stopped] at at_
    cases at_
  | prologue nowNs at_ => exact { settled with }
  | head at_ => exact { settled with }
  | iteration at_ =>
    refine { settled with
      active := (RtExecutor.iteration_pointers state.heap state.executor).1.trans settled.active
      iterations := ⟨more ++ [(state.executor.activeTraj, (state.executor.performLoopIteration state.heap).2.onTick)],
        ?_, fun entry member => ?_⟩ }
    · rw [← List.append_assoc, ← grown]
    · rcases List.mem_append.mp member with old | new
      · exact same entry old
      · cases List.mem_singleton.mp new
        exact settled.active
  | exchange stopped => exact { settled with }

theorem settles {before after : State Client R K} {events : List (Event Client R O)}
    (reached : (system plan).Reachable before) (stopped : before.planner.stopper = .returned)
    (run : (system plan).Run before events after) : Settled before after := by
  have start : Settled before before := ⟨stopped, rfl, rfl, rfl, [], (List.append_nil _).symm, nofun⟩
  have step : ∀ state event next, (system plan).Reachable state ∧ Settled before state → Step plan state event next →
      (system plan).Reachable next ∧ Settled before next := by
    rintro state event next ⟨reached, settled⟩ taken
    have inside := planner_reachable (fun _ => True) (reached.to_restrict fun _ _ _ _ => trivial)
    have halted := (Planner.halted plan).reachable inside.of_restrict
    exact ⟨reached.step taken, settled.step halted taken⟩
  exact (run.preserves step ⟨reached, start⟩).2

/-- `stop` joins the thread, so once it has returned nothing is left that could hand over, and the
executor plays on what it has. -/
theorem stopped_planner_is_final (plan : R → O → Option (Trajectory K)) {before after : State Client R K}
    {events : List (Event Client R O)} (reached : (system plan).Reachable before)
    (stopped : before.planner.stopper = .returned) (run : (system plan).Run before events after) :
    Settled before after :=
  settles reached stopped run

theorem one_request_final : ∃ before after : State Unit (PlanRequest Unit ℚ) ℚ,
    after.iterations.length = before.iterations.length + 1 ∧ Settled before after := by
  obtain ⟨state, reached, stopped, _, loop, _⟩ := answered
  refine ⟨state, _, ?_, stopped_planner_is_final oneJointPlan reached.of_restrict stopped (.single (.iteration loop))⟩
  simp

end RoboticsRt.PandaDemo

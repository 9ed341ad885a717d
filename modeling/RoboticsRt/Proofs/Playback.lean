import RoboticsRt.RtExecutor
import RoboticsRt.Proofs.Spline
import Mathlib.Algebra.Order.Floor.Semiring
import Mathlib.Data.Rat.Floor
import Mathlib.Tactic.Linarith
import Mathlib.Tactic.NormNum
import Mathlib.Tactic.Positivity
import Mathlib.Tactic.Ring

/-! What the executor plays. The pointers its iterations have read since the loop
started determine every position it emits: a trajectory read `k` times in a row has
been sampled at whole milliseconds up to its duration and held from then on. -/

namespace RoboticsRt.RtExecutor

variable {Ref K : Type} [Field K] [LinearOrder K] [DecidableEq Ref]

/-- The pointer the next iteration will read, and those read since the loop started,
latest first. -/
structure Seen (Ref : Type) where
  active : Option Ref
  reads : List (Option Ref)

def Seen.step (seen : Seen Ref) : Event Ref → Seen Ref
  | .setTrajectory traj => { seen with active := traj }
  | .start _ => { seen with reads := [] }
  | .iteration => { seen with reads := seen.active :: seen.reads }

def seen (events : List (Event Ref)) : Seen Ref := events.foldl Seen.step ⟨none, []⟩

/-- How many iterations in a row have read the pointer the next one reads. -/
def Seen.age (seen : Seen Ref) : Nat := (seen.reads.takeWhile (· = seen.active)).length

def pointersRead : Option Ref → List (Event Ref) → List (Option Ref)
  | _, [] => []
  | _, .setTrajectory traj :: rest => pointersRead traj rest
  | active, .start _ :: rest => pointersRead active rest
  | active, .iteration :: rest => active :: pointersRead active rest

structure Playable (traj : Trajectory K) : Prop where
  duration : 0 ≤ traj.durationS
  position : ∀ t, traj.eval t ≠ []

def lastTick [FloorSemiring K] (traj : Trajectory K) : Nat := ⌊traj.durationS / tick⌋₊

@[simp] theorem run_nil (heap : Ref → Trajectory K) (state : RtExecutor Ref K) :
    run heap state [] = state := rfl

@[simp] theorem run_cons (heap : Ref → Trajectory K) (state : RtExecutor Ref K) (event : Event Ref)
    (rest : List (Event Ref)) : run heap state (event :: rest) = run heap (step heap state event) rest := rfl

theorem run_append (heap : Ref → Trajectory K) (state : RtExecutor Ref K) (first last : List (Event Ref)) :
    run heap state (first ++ last) = run heap (run heap state first) last := List.foldl_append

/-! One iteration, by what the loaded state allows. -/

omit [LinearOrder K] in
theorem loadTrajectory_local (state : RtExecutor Ref K) :
    state.loadTrajectory.localTraj = state.activeTraj := by
  unfold loadTrajectory
  split
  · rfl
  next same => exact (Decidable.not_not.mp same).symm

omit [LinearOrder K] in
theorem loadTrajectory_active (state : RtExecutor Ref K) :
    state.loadTrajectory.activeTraj = state.activeTraj := by
  unfold loadTrajectory
  split <;> rfl

theorem iteration_samples (heap : Ref → Trajectory K) {state : RtExecutor Ref K} {ref : Ref}
    (loaded : state.loadTrajectory.localTraj = some ref)
    (within : state.loadTrajectory.loopTimeS ≤ (heap ref).durationS)
    (position : (heap ref).eval state.loadTrajectory.loopTimeS ≠ []) :
    (state.performLoopIteration heap).2.onTick =
        [(state.loadTrajectory.loopTimeS, (heap ref).eval state.loadTrajectory.loopTimeS)] ∧
      (state.performLoopIteration heap).1.lastQ = (heap ref).eval state.loadTrajectory.loopTimeS ∧
      (state.performLoopIteration heap).1.loopTimeS = state.loadTrajectory.loopTimeS + tick := by
  simp [performLoopIteration, evaluate, advance, playing, loaded, within, position]

theorem iteration_holds (heap : Ref → Trajectory K) {state : RtExecutor Ref K} {ref : Ref}
    (loaded : state.loadTrajectory.localTraj = some ref)
    (past : ¬ state.loadTrajectory.loopTimeS ≤ (heap ref).durationS)
    (position : state.loadTrajectory.lastQ ≠ []) :
    (state.performLoopIteration heap).2.onTick =
        [(state.loadTrajectory.loopTimeS, state.loadTrajectory.lastQ)] ∧
      (state.performLoopIteration heap).1.lastQ = state.loadTrajectory.lastQ ∧
      (state.performLoopIteration heap).1.loopTimeS = state.loadTrajectory.loopTimeS := by
  simp [performLoopIteration, evaluate, advance, playing, loaded, past, position]

theorem iteration_silent (heap : Ref → Trajectory K) {state : RtExecutor Ref K}
    (loaded : state.loadTrajectory.localTraj = none) (held : state.loadTrajectory.lastQ = []) :
    (state.performLoopIteration heap).2.onTick = [] ∧ (state.performLoopIteration heap).1.lastQ = [] := by
  simp [performLoopIteration, evaluate, advance, playing, loaded, held]

omit [DecidableEq Ref] in
private theorem evaluate_pointers (heap : Ref → Trajectory K) (loaded : RtExecutor Ref K) :
    (loaded.evaluate heap).1.activeTraj = loaded.activeTraj ∧
      (loaded.evaluate heap).1.localTraj = loaded.localTraj := by
  unfold evaluate
  split
  · exact ⟨rfl, rfl⟩
  · split <;> exact ⟨rfl, rfl⟩

omit [DecidableEq Ref] in
theorem advance_pointers (heap : Ref → Trajectory K) (evaluated : RtExecutor Ref K) :
    (evaluated.advance heap).activeTraj = evaluated.activeTraj ∧
      (evaluated.advance heap).localTraj = evaluated.localTraj ∧
      (evaluated.advance heap).lastQ = evaluated.lastQ := by
  unfold advance
  split <;> exact ⟨rfl, rfl, rfl⟩

theorem iteration_pointers (heap : Ref → Trajectory K) (state : RtExecutor Ref K) :
    (state.performLoopIteration heap).1.activeTraj = state.activeTraj ∧
      (state.performLoopIteration heap).1.localTraj = state.activeTraj := by
  have moved := advance_pointers heap (state.loadTrajectory.evaluate heap).1
  have played := evaluate_pointers heap state.loadTrajectory
  simp [performLoopIteration, moved, played, loadTrajectory_active, loadTrajectory_local]

/-- An iteration samples the trajectory it has loaded and advances the clock, or leaves the held
position and the clock as loading has left them. What it emits it holds from then on. -/
theorem iteration_cases (heap : Ref → Trajectory K) (state : RtExecutor Ref K) :
    (∀ call ∈ (state.performLoopIteration heap).2.onTick,
      call.2 = (state.performLoopIteration heap).1.lastQ ∧ call.2 ≠ []) ∧
    ((∃ ref, state.activeTraj = some ref ∧ state.loadTrajectory.loopTimeS ≤ (heap ref).durationS ∧
        (state.performLoopIteration heap).1.lastQ = (heap ref).eval state.loadTrajectory.loopTimeS ∧
        (state.performLoopIteration heap).1.loopTimeS = state.loadTrajectory.loopTimeS + tick) ∨
      (state.performLoopIteration heap).1.lastQ = state.loadTrajectory.lastQ ∧
        (state.performLoopIteration heap).1.loopTimeS = state.loadTrajectory.loopTimeS) := by
  cases loaded : state.activeTraj with
  | none =>
    rw [← loadTrajectory_local] at loaded
    by_cases silent : state.loadTrajectory.lastQ = [] <;>
      simp [performLoopIteration, evaluate, advance, playing, loaded, silent]
  | some ref =>
    rw [← loadTrajectory_local] at loaded
    by_cases within : state.loadTrajectory.loopTimeS ≤ (heap ref).durationS
    · refine ⟨?_, Or.inl ⟨ref, rfl, within, ?_⟩⟩ <;>
        simp [performLoopIteration, evaluate, advance, playing, loaded, within]
    · by_cases silent : state.loadTrajectory.lastQ = [] <;>
        simp [performLoopIteration, evaluate, advance, playing, loaded, within, silent]

section Exact
variable [IsStrictOrderedRing K]

theorem tick_pos : (0 : K) < tick := by
  unfold tick
  positivity

/-- The position of the trajectory at a time that the clock has passed by no more than a tick. -/
def JustPassed (trajectory : Trajectory K) (clock : K) (q : List K) : Prop :=
  ∃ t, 0 ≤ t ∧ t ≤ trajectory.durationS ∧ t ≤ clock ∧ clock ≤ t + tick ∧ q = trajectory.eval t

/-- The position the loop holds is one that its trajectory has just passed. -/
structure Holding (heap : Ref → Trajectory K) (state : RtExecutor Ref K) : Prop where
  clock : 0 ≤ state.loopTimeS
  held : state.lastQ ≠ [] →
    ∃ ref, state.localTraj = some ref ∧ JustPassed (heap ref) state.loopTimeS state.lastQ

omit [DecidableEq Ref] [IsStrictOrderedRing K] in
theorem Holding.empty {heap : Ref → Trajectory K} {state : RtExecutor Ref K} (clock : state.loopTimeS = 0)
    (none : state.lastQ = []) : Holding heap state :=
  ⟨clock.ge, fun some => absurd none some⟩

omit [IsStrictOrderedRing K] in
theorem Holding.load {heap : Ref → Trajectory K} {state : RtExecutor Ref K} (holding : Holding heap state) :
    Holding heap state.loadTrajectory := by
  unfold loadTrajectory
  split
  · exact .empty rfl rfl
  · exact holding

theorem Holding.iteration {heap : Ref → Trajectory K} {state : RtExecutor Ref K} (holding : Holding heap state) :
    Holding heap (state.performLoopIteration heap).1 ∧
      ∀ call ∈ (state.performLoopIteration heap).2.onTick, ∃ ref, state.activeTraj = some ref ∧
        JustPassed (heap ref) (state.performLoopIteration heap).1.loopTimeS call.2 := by
  have later : (0 : K) ≤ tick := tick_pos.le
  obtain ⟨emits, moved⟩ := iteration_cases heap state
  have pointer := (iteration_pointers heap state).2
  have kept : Holding heap (state.performLoopIteration heap).1 := by
    rcases moved with ⟨ref, active, within, sampled, clock⟩ | ⟨same, clock⟩
    · have started := holding.load.clock
      refine ⟨?_, fun _ => ⟨ref, pointer.trans active, state.loadTrajectory.loopTimeS, started, within, ?_, clock.le, sampled⟩⟩
      · rw [clock]
        exact add_nonneg started later
      · rw [clock]
        exact le_add_of_nonneg_right later
    · refine ⟨clock ▸ holding.load.clock, fun some => ?_⟩
      rw [same] at some
      obtain ⟨ref, loaded, passed⟩ := holding.load.held some
      rw [loadTrajectory_local] at loaded
      exact ⟨ref, pointer.trans loaded, by rwa [same, clock]⟩
  refine ⟨kept, fun call emitted => ?_⟩
  obtain ⟨position, some⟩ := emits call emitted
  rw [position] at some ⊢
  rw [← pointer]
  exact kept.held some

theorem holding_run (heap : Ref → Trajectory K) (events : List (Event Ref)) : Holding heap (run heap initial events) := by
  induction events using List.reverseRecOn with
  | nil => exact .empty rfl rfl
  | append_singleton events event ih =>
    rw [run_append, run_cons, run_nil]
    cases event with
    | setTrajectory traj => exact ⟨ih.clock, ih.held⟩
    | start nowNs => exact .empty rfl rfl
    | iteration => exact ih.iteration.1

variable [FloorSemiring K]

theorem clock_le_duration {traj : Trajectory K} (duration : 0 ≤ traj.durationS) (count : Nat) :
    tick * (count : K) ≤ traj.durationS ↔ count ≤ lastTick traj := by
  have positive : (0 : K) < tick := tick_pos
  rw [lastTick, Nat.le_floor_iff (div_nonneg duration positive.le), le_div_iff₀ positive, mul_comm]

/-- The loop's variables, as the pointers read so far determine them. -/
structure Tracks (heap : Ref → Trajectory K) (seen : Seen Ref) (state : RtExecutor Ref K) : Prop where
  active : state.activeTraj = seen.active
  fresh : seen.reads = [] → state.loopTimeS = 0 ∧ state.lastQ = []
  pointer : ∀ traj rest, seen.reads = traj :: rest → state.localTraj = traj
  silent : ∀ rest, seen.reads = none :: rest → state.lastQ = []
  playing : ∀ ref rest, seen.reads = some ref :: rest → Playable (heap ref) →
    state.loopTimeS = tick * (min ((seen.reads.takeWhile (· = some ref)).length) (lastTick (heap ref) + 1) : Nat) ∧
    state.lastQ = (heap ref).eval
      (tick * (min ((seen.reads.takeWhile (· = some ref)).length - 1) (lastTick (heap ref)) : Nat))

omit [IsStrictOrderedRing K] in
private theorem Tracks.clock {heap : Ref → Trajectory K} {seen : Seen Ref} {state : RtExecutor Ref K}
    (tracks : Tracks heap seen state) {ref : Ref} (active : seen.active = some ref)
    (playable : Playable (heap ref)) :
    state.loadTrajectory.loopTimeS = tick * (min seen.age (lastTick (heap ref) + 1) : Nat) ∧
    (0 < seen.age → state.loadTrajectory.lastQ =
      (heap ref).eval (tick * (min (seen.age - 1) (lastTick (heap ref)) : Nat))) := by
  have reading : state.activeTraj = some ref := tracks.active.trans active
  cases reads : seen.reads with
  | nil =>
    have young : seen.age = 0 := by simp [Seen.age, reads]
    have start := tracks.fresh reads
    have clock : state.loadTrajectory.loopTimeS = 0 := by
      unfold loadTrajectory
      split
      · rfl
      · exact start.1
    simp [young, clock]
  | cons last rest =>
    have pointer := tracks.pointer last rest reads
    by_cases same : last = some ref
    · subst same
      have unchanged : state.loadTrajectory = state := by
        unfold loadTrajectory
        rw [if_neg (by rw [reading, pointer]; simp)]
      have counted : seen.age = (seen.reads.takeWhile (· = some ref)).length := by rw [Seen.age, active]
      obtain ⟨clock, held⟩ := tracks.playing ref rest reads playable
      rw [unchanged, counted]
      exact ⟨clock, fun _ => held⟩
    · have young : seen.age = 0 := by simp [Seen.age, reads, active, same]
      have changed : state.activeTraj ≠ state.localTraj := by
        rw [reading, pointer]
        exact Ne.symm same
      have clock : state.loadTrajectory.loopTimeS = 0 := by
        unfold loadTrajectory
        rw [if_pos changed]
      simp [young, clock]

theorem Tracks.plays {heap : Ref → Trajectory K} {seen : Seen Ref} {state : RtExecutor Ref K}
    (tracks : Tracks heap seen state) {ref : Ref} (active : seen.active = some ref)
    (playable : Playable (heap ref)) :
    (state.performLoopIteration heap).2.onTick =
        [((tick : K) * (min seen.age (lastTick (heap ref) + 1) : Nat),
          (heap ref).eval (tick * (min seen.age (lastTick (heap ref)) : Nat)))] ∧
      (state.performLoopIteration heap).1.loopTimeS =
        tick * (min (seen.age + 1) (lastTick (heap ref) + 1) : Nat) ∧
      (state.performLoopIteration heap).1.lastQ =
        (heap ref).eval (tick * (min seen.age (lastTick (heap ref)) : Nat)) := by
  obtain ⟨clock, held⟩ := tracks.clock active playable
  have loaded : state.loadTrajectory.localTraj = some ref := by
    rw [loadTrajectory_local]
    exact tracks.active.trans active
  by_cases within : seen.age ≤ lastTick (heap ref)
  · have counts : min seen.age (lastTick (heap ref) + 1) = seen.age ∧
        min seen.age (lastTick (heap ref)) = seen.age ∧
        min (seen.age + 1) (lastTick (heap ref) + 1) = seen.age + 1 := by omega
    rw [counts.1] at clock
    have inside : state.loadTrajectory.loopTimeS ≤ (heap ref).durationS := by
      rw [clock]
      exact (clock_le_duration playable.duration _).mpr within
    obtain ⟨emitted, last, advanced⟩ := iteration_samples heap loaded inside (playable.position _)
    rw [counts.1, counts.2.1, counts.2.2, emitted, last, advanced, clock]
    refine ⟨rfl, ?_, rfl⟩
    push_cast
    ring
  · have counts : min seen.age (lastTick (heap ref) + 1) = lastTick (heap ref) + 1 ∧
        min seen.age (lastTick (heap ref)) = lastTick (heap ref) ∧
        min (seen.age + 1) (lastTick (heap ref) + 1) = lastTick (heap ref) + 1 ∧
        min (seen.age - 1) (lastTick (heap ref)) = lastTick (heap ref) := by omega
    have last := held (by omega)
    rw [counts.1] at clock
    rw [counts.2.2.2] at last
    have past : ¬ state.loadTrajectory.loopTimeS ≤ (heap ref).durationS := by
      rw [clock]
      exact fun inside => absurd ((clock_le_duration playable.duration _).mp inside) (by omega)
    obtain ⟨emitted, kept, stays⟩ := iteration_holds heap loaded past (by rw [last]; exact playable.position _)
    rw [counts.1, counts.2.1, counts.2.2.1, emitted, kept, stays, clock, last]
    exact ⟨rfl, rfl, rfl⟩

omit [IsStrictOrderedRing K] in
theorem Tracks.null {heap : Ref → Trajectory K} {seen : Seen Ref} {state : RtExecutor Ref K}
    (tracks : Tracks heap seen state) (active : seen.active = none) :
    (state.performLoopIteration heap).2.onTick = [] ∧ (state.performLoopIteration heap).1.lastQ = [] := by
  have reading : state.activeTraj = none := tracks.active.trans active
  apply iteration_silent
  · rw [loadTrajectory_local, reading]
  · unfold loadTrajectory
    split
    · rfl
    next unchanged =>
      have same : state.localTraj = none := by
        rw [← reading]
        exact (Decidable.not_not.mp unchanged).symm
      cases reads : seen.reads with
      | nil => exact (tracks.fresh reads).2
      | cons last rest =>
        have pointer := tracks.pointer last rest reads
        exact tracks.silent rest (by rw [reads, ← pointer, same])

theorem Tracks.step {heap : Ref → Trajectory K} {seen : Seen Ref} {state : RtExecutor Ref K}
    (tracks : Tracks heap seen state) (event : Event Ref) :
    Tracks heap (seen.step event) (RtExecutor.step heap state event) := by
  cases event with
  | setTrajectory traj => exact ⟨rfl, tracks.fresh, tracks.pointer, tracks.silent, tracks.playing⟩
  | start nowNs =>
    exact ⟨tracks.active, fun _ => ⟨rfl, rfl⟩, (fun _ _ impossible => by cases impossible),
      (fun _ impossible => by cases impossible), fun _ _ impossible => by cases impossible⟩
  | iteration =>
    obtain ⟨keeps, loads⟩ := iteration_pointers heap state
    refine ⟨keeps.trans tracks.active, (fun impossible => by cases impossible), ?_, ?_, ?_⟩
    · intro traj rest reads
      cases reads
      exact loads.trans tracks.active
    · intro rest reads
      exact (tracks.null (List.cons.inj reads).1).2
    · intro ref rest reads playable
      have active : seen.active = some ref := (List.cons.inj reads).1
      have counted : ((seen.active :: seen.reads).takeWhile (· = some ref)).length = seen.age + 1 := by
        simp [Seen.age, active]
      obtain ⟨_, clock, held⟩ := tracks.plays active playable
      simp only [Seen.step, counted, Nat.add_sub_cancel]
      exact ⟨clock, held⟩

theorem tracks_run (heap : Ref → Trajectory K) (events : List (Event Ref)) :
    Tracks heap (seen events) (run heap initial events) := by
  have follow (seen : Seen Ref) (state : RtExecutor Ref K) (tracks : Tracks heap seen state) :
      Tracks heap (events.foldl Seen.step seen) (run heap state events) := by
    induction events generalizing seen state with
    | nil => exact tracks
    | cons event rest ih => exact ih _ _ (tracks.step event)
  apply follow
  exact ⟨rfl, fun _ => ⟨rfl, rfl⟩, (fun _ _ impossible => by cases impossible),
    (fun _ impossible => by cases impossible), fun _ _ impossible => by cases impossible⟩

end Exact

theorem iterations_pointers (heap : Ref → Trajectory K) (state : RtExecutor Ref K) (events : List (Event Ref)) :
    (iterations heap state events).map Prod.fst = pointersRead state.activeTraj events := by
  induction events generalizing state with
  | nil => rfl
  | cons event rest ih =>
    have later := ih (step heap state event)
    cases event with
    | setTrajectory traj => exact later
    | start nowNs => exact later
    | iteration =>
      have keeps : (step heap state .iteration).activeTraj = state.activeTraj := (iteration_pointers heap state).1
      rw [keeps] at later
      rw [iterations, List.map_cons, later, pointersRead]

/-! Superseded calls. Between two iterations only the last pointer matters. -/

theorem iterations_append (heap : Ref → Trajectory K) (state : RtExecutor Ref K) (first last : List (Event Ref)) :
    iterations heap state (first ++ last) =
      iterations heap state first ++ iterations heap (run heap state first) last := by
  induction first generalizing state with
  | nil => rfl
  | cons event rest ih => cases event <;> simp [iterations, ih]

theorem iterations_quiet (heap : Ref → Trajectory K) (state : RtExecutor Ref K) {events : List (Event Ref)}
    (quiet : ∀ event ∈ events, event ≠ .iteration) : iterations heap state events = [] := by
  induction events generalizing state with
  | nil => rfl
  | cons event rest ih =>
    have later := ih (step heap state event) fun event member => quiet event (List.mem_cons_of_mem _ member)
    cases event with
    | iteration => exact absurd rfl (quiet _ List.mem_cons_self)
    | setTrajectory _ | start _ => exact later

private theorem run_superseded (heap : Ref → Trajectory K) (state : RtExecutor Ref K) {between : List (Event Ref)}
    (quiet : ∀ event ∈ between, event ≠ .iteration) (superseded traj : Option Ref) :
    (run heap (state.setTrajectory superseded) between).setTrajectory traj =
      (run heap state between).setTrajectory traj := by
  induction between generalizing state superseded with
  | nil => rfl
  | cons event rest ih =>
    have later := fun event member => quiet event (List.mem_cons_of_mem _ member)
    cases event with
    | iteration => exact absurd rfl (quiet _ List.mem_cons_self)
    | setTrajectory other => rfl
    | start nowNs => exact ih (state.rtLoopStart nowNs) later superseded

/-- A pointer replaced before the next iteration leaves no trace. -/
theorem superseded_unseen (heap : Ref → Trajectory K) (state : RtExecutor Ref K)
    (before after : List (Event Ref)) {between : List (Event Ref)}
    (quiet : ∀ event ∈ between, event ≠ .iteration) (superseded traj : Option Ref) :
    run heap state (before ++ .setTrajectory superseded :: (between ++ .setTrajectory traj :: after)) =
        run heap state (before ++ (between ++ .setTrajectory traj :: after)) ∧
      iterations heap state (before ++ .setTrajectory superseded :: (between ++ .setTrajectory traj :: after)) =
        iterations heap state (before ++ (between ++ .setTrajectory traj :: after)) := by
  have same := run_superseded heap (run heap state before) quiet superseded traj
  constructor
  · simp only [run_append, run_cons, step, same]
  · simp only [iterations_append, iterations, step, same, iterations_quiet _ _ quiet]

/-- Nothing but the pointers read so far counts. With `k` the iterations since the loop start or
the last different pointer and `K` the whole milliseconds of the duration, an iteration reports
time `min k (K + 1)` and the position at `min k K`. -/
theorem playback_closed_form [IsStrictOrderedRing K] [FloorSemiring K] (heap : Ref → Trajectory K)
    (events : List (Event Ref)) {ref : Ref} (active : (run heap initial events).activeTraj = some ref)
    (playable : Playable (heap ref)) :
    ((run heap initial events).performLoopIteration heap).2.onTick =
        [((tick : K) * (min (seen events).age (lastTick (heap ref) + 1) : Nat),
          (heap ref).eval (tick * (min (seen events).age (lastTick (heap ref)) : Nat)))] ∧
      ∀ before between after superseded traj,
        events = before ++ .setTrajectory superseded :: (between ++ .setTrajectory traj :: after) →
        (∀ event ∈ between, event ≠ .iteration) →
        run heap initial events = run heap initial (before ++ (between ++ .setTrajectory traj :: after)) ∧
        iterations heap initial events =
          iterations heap initial (before ++ (between ++ .setTrajectory traj :: after)) := by
  have tracks := tracks_run heap events
  refine ⟨(tracks.plays (tracks.active.symm.trans active) playable).1, ?_⟩
  intro before between after superseded traj same quiet
  rw [same]
  exact superseded_unseen heap initial before after quiet superseded traj

def ramp (durationS : ℚ) : Unit → Trajectory ℚ := fun _ => fitCubicSpline [[0], [1]] durationS

theorem ramp_playable {durationS : ℚ} (duration : 0 ≤ durationS) : Playable (ramp durationS ()) where
  duration := duration
  position t empty := by
    have size : ((ramp durationS ()).eval t).length = 1 := (ramp durationS ()).eval_length t
    simp [empty] at size

theorem ramp_lastTick : lastTick (ramp (3 / 2000) ()) = 1 := by
  have duration : (ramp (3 / 2000) ()).durationS = 3 / 2000 := rfl
  rw [lastTick, duration, tick, Nat.floor_eq_iff (by norm_num)]
  norm_num

theorem ramp_position : (ramp (3 / 2000) ()).eval (tick * (1 : Nat)) = [2 / 3] := by
  have clock : (tick : ℚ) * (1 : Nat) = 1 / 1000 := by norm_num [tick]
  rw [clock]
  decide +kernel

theorem playback_closed_form_ramp :
    ((run (ramp (3 / 2000)) initial
        [.start 0, .setTrajectory (some ()), .iteration, .iteration, .iteration]).performLoopIteration
          (ramp (3 / 2000))).2.onTick = [(2 / 1000, [2 / 3])] := by
  have closed := (playback_closed_form (ramp (3 / 2000))
    [.start 0, .setTrajectory (some ()), .iteration, .iteration, .iteration]
    ((tracks_run _ _).active.trans rfl) (ramp_playable (by norm_num))).1
  have age : (seen [.start 0, .setTrajectory (some ()), .iteration, .iteration, .iteration]).age = 3 := rfl
  have clock : (tick : ℚ) * (min 3 (1 + 1) : Nat) = 2 / 1000 := by norm_num [tick]
  rw [closed, age, ramp_lastTick, clock]
  exact congrArg (fun position => [(2 / 1000, position)]) ramp_position

end RoboticsRt.RtExecutor

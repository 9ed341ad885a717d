import RoboticsRt.Trajectory

/-! The 1 kHz playback loop (`rt_executor.cpp`). `setTrajectory` and the loop share only
`active_traj_`, under a mutex, so an interleaving is a list of calls, loop starts and
iterations. A `shared_ptr` is a reference into a heap of immutable trajectories; two
pointers are equal when they refer to the same object. -/

namespace RoboticsRt

structure RtExecutor (Ref K : Type) where
  activeTraj : Option Ref
  localTraj : Option Ref
  loopTimeS : K
  lastQ : List K
  nextTickNs : UInt64

/-- The absolute wake-up time handed to `clock_nanosleep`. -/
structure Timespec where
  tvSec : UInt64
  tvNsec : UInt64

/-- `now_ns`: the code converts to nanoseconds for easier arithmetic. -/
def Timespec.nowNs (now : Timespec) : UInt64 := now.tvSec * 1000000000 + now.tvNsec

/-- The point in time a `timespec` names, in nanoseconds of `CLOCK_MONOTONIC`. -/
def Timespec.instant (time : Timespec) : Nat := time.tvSec.toNat * 1000000000 + time.tvNsec.toNat

/-- What one iteration does outside the loop's own state: the calls of `on_tick` with
time and position, and the sleep at its end. -/
structure Iteration (K : Type) where
  onTick : List (K × List K)
  sleepUntil : Timespec

namespace RtExecutor
variable {Ref K : Type} [Field K] [LinearOrder K] [DecidableEq Ref]

def initial : RtExecutor Ref K := ⟨none, none, 0, [], 0⟩

def setTrajectory (state : RtExecutor Ref K) (traj : Option Ref) : RtExecutor Ref K :=
  { state with activeTraj := traj }

def tickPeriodNs : UInt64 := 1000000

/-- The loop's prologue, with the clock reading `now_ns`. -/
def rtLoopStart (state : RtExecutor Ref K) (nowNs : UInt64) : RtExecutor Ref K :=
  { state with nextTickNs := nowNs + tickPeriodNs, loopTimeS := 0, lastQ := [] }

/-- The 0.001 s one iteration adds to `loop_time_s_`. -/
def tick : K := 1 / 1000

/-- If the trajectory pointer changed, reset the loop time. -/
def loadTrajectory (state : RtExecutor Ref K) : RtExecutor Ref K :=
  if state.activeTraj ≠ state.localTraj then
    { state with localTraj := state.activeTraj, loopTimeS := 0, lastQ := [] }
  else state

/-- `local_traj_ && loop_time_s_ <= local_traj_->duration_s`, with the trajectory. -/
def playing (heap : Ref → Trajectory K) (state : RtExecutor Ref K) : Option (Trajectory K) :=
  match state.localTraj with
  | some ref => if state.loopTimeS ≤ (heap ref).durationS then some (heap ref) else none
  | none => none

/-- Evaluate the trajectory or hold the last position. -/
def evaluate (heap : Ref → Trajectory K) (state : RtExecutor Ref K) : RtExecutor Ref K × List K :=
  match state.playing heap with
  | some traj =>
    let q := traj.eval state.loopTimeS
    ({ state with lastQ := q }, q)
  | none =>
    if !state.lastQ.isEmpty then (state, state.lastQ)
    else (state, []) -- no trajectory, no last position

/-- Advance time for the next iteration. -/
def advance (heap : Ref → Trajectory K) (state : RtExecutor Ref K) : RtExecutor Ref K :=
  if (state.playing heap).isSome then { state with loopTimeS := state.loopTimeS + tick } else state

def performLoopIteration (heap : Ref → Trajectory K) (state : RtExecutor Ref K) :
    RtExecutor Ref K × Iteration K :=
  let (evaluated, q) := state.loadTrajectory.evaluate heap
  let onTick := if q.isEmpty then [] else [(evaluated.loopTimeS, q)]
  let advanced := evaluated.advance heap
  let sleepUntil := ⟨advanced.nextTickNs / 1000000000, advanced.nextTickNs % 1000000000⟩
  ({ advanced with nextTickNs := advanced.nextTickNs + tickPeriodNs }, { onTick, sleepUntil })

/-- One atomic piece of an interleaving of callers with the loop. -/
inductive Event (Ref : Type) where
  | setTrajectory (traj : Option Ref)
  | start (nowNs : UInt64)
  | iteration

def step (heap : Ref → Trajectory K) (state : RtExecutor Ref K) : Event Ref → RtExecutor Ref K
  | .setTrajectory traj => state.setTrajectory traj
  | .start nowNs => state.rtLoopStart nowNs
  | .iteration => (state.performLoopIteration heap).1

def run (heap : Ref → Trajectory K) (state : RtExecutor Ref K) (events : List (Event Ref)) :
    RtExecutor Ref K := events.foldl (step heap) state

/-- The iterations of a run: the pointer each one read and the calls it made. -/
def iterations (heap : Ref → Trajectory K) : RtExecutor Ref K → List (Event Ref) →
    List (Option Ref × List (K × List K))
  | _, [] => []
  | state, .iteration :: rest =>
    (state.activeTraj, (state.performLoopIteration heap).2.onTick) ::
      iterations heap (step heap state .iteration) rest
  | state, event :: rest => iterations heap (step heap state event) rest

/-! The loop on a clock. `clock_nanosleep` is outside the repository: of the clock it
promises only what `Sleeps` says, and the code goes on alike after either result. -/

/-- The result `ret` of a sleep. -/
inductive SleepResult where
  | zero
  | eintr
deriving DecidableEq

/-- An absolute sleep called at `called` and over at `woke`: 0 only at or after the
deadline, `EINTR` at any time before it. -/
def Sleeps (deadline : Timespec) (called : Nat) (ret : SleepResult) (woke : Nat) : Prop :=
  called ≤ woke ∧
    match ret with
    | .zero => deadline.instant ≤ woke
    | .eintr => woke < deadline.instant

/-- One iteration on the clock: when it starts, the deadline it sleeps for, and the sleep. -/
structure Lap where
  started : Nat
  deadline : Timespec
  ret : SleepResult
  woke : Nat

/-- The laps of a run of the loop that begins at the reading `now` of a monotone clock;
`setTrajectory` is called between iterations, and `running_` may stop the loop. -/
inductive Laps (heap : Ref → Trajectory K) : RtExecutor Ref K → Nat → List Lap → Prop where
  | stop (state : RtExecutor Ref K) (now : Nat) : Laps heap state now []
  | setTrajectory {state : RtExecutor Ref K} {now : Nat} {laps : List Lap} (traj : Option Ref)
      (rest : Laps heap (state.setTrajectory traj) now laps) : Laps heap state now laps
  | iteration {state : RtExecutor Ref K} {now started woke : Nat} {ret : SleepResult} {laps : List Lap}
      (monotone : now ≤ started) (sleeps : Sleeps (state.performLoopIteration heap).2.sleepUntil started ret woke)
      (rest : Laps heap (state.performLoopIteration heap).1 woke laps) :
      Laps heap state now (⟨started, (state.performLoopIteration heap).2.sleepUntil, ret, woke⟩ :: laps)

end RtExecutor
end RoboticsRt

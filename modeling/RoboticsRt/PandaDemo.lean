import RoboticsRt.MotionPlanning
import RoboticsRt.Planner
import RoboticsRt.RtExecutor

/-! The demo (`main.cpp`): the planner's callback hands each trajectory to the executor, whose
ticks go to the console. One step is one of a planner thread, one access of the RT thread to
`running_`, or one iteration, which reads `active_traj_` once. The planner allocates a new
trajectory for every hand-off; a `shared_ptr` is its number. -/

namespace RoboticsRt.PandaDemo

variable {Client R O K : Type}

/-- `CollisionScene::Mode` -/
inductive Mode where
  | CPU
  | GPU
  deriving DecidableEq

/-- The loop over the arguments; `none` where the usage is printed and the program ends with 1. -/
def parseMode (args : List String) : Option Mode :=
  args.foldlM (fun (_ : Mode) arg =>
    if arg = "--gpu" then some .GPU
    else if arg = "--cpu" then some .CPU
    else none) .CPU

/-- What `on_tick` captures, and what it has printed. -/
structure Output (K : Type) where
  outputCounter : Nat
  printed : List (K × List K)

/-- `on_tick`: print every 10th tick. -/
def Output.onTick (output : Output K) (tick : K × List K) : Output K where
  outputCounter := output.outputCounter + 1
  printed := if output.outputCounter % 10 = 0 then output.printed ++ [tick] else output.printed

/-- Where `rtLoop` stands: each constructor is the point before one step. -/
inductive RtPc where
  | prologue
  | head -- `while (running_.load())`
  | iteration
  | exited
  deriving DecidableEq

structure State (Client R K : Type) where
  planner : Planner.State Client R (Trajectory K)
  executor : RtExecutor Nat K
  trajectories : List (Trajectory K) -- by number
  rtRunning : Bool
  rtLoop : RtPc
  output : Output K
  -- the pointer each iteration read and the calls it made; nothing in the program reads it
  iterations : List (Option Nat × List (K × List K))

def State.heap [Field K] (state : State Client R K) (ref : Nat) : Trajectory K := state.trajectories.getD ref .empty

inductive Event (Client R O : Type) where
  | planner (event : Planner.Event Client R O)
  | handOff
  | prologue (nowNs : UInt64)
  | head
  | iteration
  | exchange -- `rt_executor.stop()`, after `planner.stop()` returned

variable [Field K] [LinearOrder K] [DecidableEq Client]

inductive Step (plan : R → O → Option (Trajectory K)) :
    State Client R K → Event Client R O → State Client R K → Prop where
  | planner {state after event} (taken : Planner.Step plan state.planner event after) (other : event ≠ .handOff) :
      Step plan state (.planner event) { state with planner := after }
  -- `on_new_trajectory`: `rt_executor.setTrajectory(traj)`
  | handOff {state after request trajectory} (at_ : state.planner.loop = .handOff request trajectory)
      (taken : Planner.Step plan state.planner .handOff after) :
      Step plan state .handOff
        { state with
          planner := after
          trajectories := state.trajectories ++ [trajectory]
          executor := state.executor.setTrajectory (some state.trajectories.length) }
  | prologue {state} (nowNs : UInt64) (at_ : state.rtLoop = .prologue) :
      Step plan state (.prologue nowNs) { state with executor := state.executor.rtLoopStart nowNs, rtLoop := .head }
  | head {state} (at_ : state.rtLoop = .head) :
      Step plan state .head { state with rtLoop := if state.rtRunning then .iteration else .exited }
  | iteration {state} (at_ : state.rtLoop = .iteration) :
      Step plan state .iteration
        { state with
          executor := (state.executor.performLoopIteration state.heap).1
          rtLoop := .head
          output := (state.executor.performLoopIteration state.heap).2.onTick.foldl Output.onTick state.output
          iterations := state.iterations ++
            [(state.executor.activeTraj, (state.executor.performLoopIteration state.heap).2.onTick)] }
  | exchange {state} (stopped : state.planner.stopper = .returned) :
      Step plan state .exchange { state with rtRunning := false }

/-- Both threads are launched, the executor's first; no request has been made. -/
def initial : State Client R K where
  planner := Planner.initial
  executor := .initial
  trajectories := []
  rtRunning := true
  rtLoop := .prologue
  output := ⟨0, []⟩
  iterations := []

def system (plan : R → O → Option (Trajectory K)) : Transition.System (State Client R K) (Event Client R O) where
  start state := state = initial
  step := Step plan

end RoboticsRt.PandaDemo

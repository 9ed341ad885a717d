import RoboticsRt.Library.Transition
import Mathlib.Data.List.Basic

/-! `start()` and `stop()` of the planner and the executor (`planner.cpp`,
`rt_executor.cpp`) as atomic steps of any number of client threads and of the loop threads
they launch. The two classes differ in one step: the planner notifies before it joins.
What a loop does between two loads of `running_` is left out, as is the wait that the
notification ends. -/

namespace RoboticsRt.Lifecycle

/-- A loop thread, from its launch on. -/
inductive Loop where
  | looping
  | leaving -- has read that `running_` is false
  | exited
  deriving DecidableEq

/-- Where a client stands: each constructor is the point before one step. In `stop` the
flag tells whether a `start` has begun since; nothing in the program reads it. -/
inductive ClientPc where
  | idle
  | construct -- `std::thread(&Planner::planningLoop, this)`
  | assign (id : Nat) -- `thread_ = ...`
  | startReturning
  | notify (later : Bool)
  | joinable (later : Bool)
  | join (later : Bool)
  | stopReturning (later : Bool)
  deriving DecidableEq

/-- A `start` has begun. -/
def ClientPc.overtaken : ClientPc → ClientPc
  | .notify _ => .notify true
  | .joinable _ => .joinable true
  | .join _ => .join true
  | .stopReturning _ => .stopReturning true
  | pc => pc

variable {Client : Type}

structure State (Client : Type) where
  running : Bool
  thread : Option Nat -- the loop thread `thread_` holds, if it is joinable
  loops : List Loop
  clients : Client → ClientPc
  terminated : Bool

def State.setClient [DecidableEq Client] (state : State Client) (caller : Client) (pc : ClientPc) : State Client :=
  { state with clients := fun other => if other = caller then pc else state.clients other }

def State.overtake (state : State Client) : State Client :=
  { state with clients := fun other => (state.clients other).overtaken }

def State.setLoop (state : State Client) (id : Nat) (loop : Loop) : State Client :=
  { state with loops := state.loops.set id loop }

inductive Event (Client : Type) where
  | startExchange (caller : Client)
  | construct (caller : Client)
  | assign (caller : Client)
  | startReturn (caller : Client)
  | stopExchange (caller : Client)
  | notifyAll (caller : Client)
  | joinable (caller : Client)
  | join (caller : Client)
  | joinThrow (caller : Client)
  | stopReturn (caller : Client)
  | load (id : Nat)
  | finish (id : Nat)

inductive Step [DecidableEq Client] (notifies : Bool) : State Client → Event Client → State Client → Prop where
  -- `if (running_.exchange(true)) return;`
  | startExchange {state} (caller : Client) (at_ : state.clients caller = .idle) :
      Step notifies state (.startExchange caller)
        { state.overtake.setClient caller (if state.running then .startReturning else .construct) with running := true }
  | construct {state} (caller : Client) (at_ : state.clients caller = .construct) :
      Step notifies state (.construct caller)
        { state.setClient caller (.assign state.loops.length) with loops := state.loops ++ [.looping] }
  -- assigning to a joinable thread calls `std::terminate`
  | assign {state id} (caller : Client) (at_ : state.clients caller = .assign id) :
      Step notifies state (.assign caller)
        { state.setClient caller .startReturning with
          thread := if state.thread.isSome then state.thread else some id
          terminated := state.thread.isSome }
  | startReturn {state} (caller : Client) (at_ : state.clients caller = .startReturning) :
      Step notifies state (.startReturn caller) (state.setClient caller .idle)
  -- `if (!running_.exchange(false)) return;`
  | stopExchange {state} (caller : Client) (at_ : state.clients caller = .idle) :
      Step notifies state (.stopExchange caller)
        { state.setClient caller (if !state.running then .stopReturning false
            else if notifies then .notify false else .joinable false) with
          running := false }
  | notifyAll {state later} (caller : Client) (at_ : state.clients caller = .notify later) :
      Step notifies state (.notifyAll caller) (state.setClient caller (.joinable later))
  | joinable {state later} (caller : Client) (at_ : state.clients caller = .joinable later) :
      Step notifies state (.joinable caller)
        (state.setClient caller (if state.thread.isSome then .join later else .stopReturning later))
  | join {state later id} (caller : Client) (at_ : state.clients caller = .join later) (held : state.thread = some id)
      (done : state.loops[id]? = some .exited) :
      Step notifies state (.join caller) { state.setClient caller (.stopReturning later) with thread := none }
  -- `join` of a thread that is not joinable any more
  | joinThrow {state later} (caller : Client) (at_ : state.clients caller = .join later) (held : state.thread = none) :
      Step notifies state (.joinThrow caller) (state.setClient caller .idle)
  | stopReturn {state later} (caller : Client) (at_ : state.clients caller = .stopReturning later) :
      Step notifies state (.stopReturn caller) (state.setClient caller .idle)
  | load {state} (id : Nat) (at_ : state.loops[id]? = some .looping) :
      Step notifies state (.load id) (state.setLoop id (if state.running then .looping else .leaving))
  | finish {state} (id : Nat) (at_ : state.loops[id]? = some .leaving) :
      Step notifies state (.finish id) (state.setLoop id .exited)

def initial : State Client := ⟨false, none, [], fun _ => .idle, false⟩

/-- The process runs until it is terminated. -/
def system [DecidableEq Client] (notifies : Bool) : Transition.System (State Client) (Event Client) where
  start state := state = initial
  step before event after := before.terminated = false ∧ Step notifies before event after

end RoboticsRt.Lifecycle

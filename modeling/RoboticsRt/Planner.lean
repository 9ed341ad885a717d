import RoboticsRt.Library.Transition

/-! The planner's background thread (`planner.cpp`) as atomic steps. A step is one
access to `running_`, to `request_mutex_`, to the condition variable, or one stretch
of code that no other thread can observe. The request and trajectory types, and what
one planning attempt makes of a request, are parameters. -/

namespace RoboticsRt.Planner

variable {Client R O T : Type}

/-- A request with its position in lock order. The program stores only the request;
the position names it in the history. -/
structure Ticket (R : Type) where
  stamp : Nat
  request : R
  deriving DecidableEq

inductive Owner (Client : Type) where
  | loop
  | client (caller : Client)
  deriving DecidableEq

/-- Where `planningLoop` stands: each constructor is the point before one step. -/
inductive LoopPc (R T : Type) where
  | head -- `while (running_.load())`
  | lock -- constructing the `unique_lock`
  | test -- evaluating the wait predicate, mutex held
  | window -- the predicate was false: about to release the mutex and block in one step
  | blocked -- inside `request_cv_.wait`, waiting for a notification
  | wake -- woken, about to take the mutex again
  | check -- `if (!running_.load()) break`, mutex held
  | leave -- `break`: the lock's destructor runs and the thread function returns
  | take -- copying and resetting `pending_request_`, mutex held
  | unlock (request : Option (Ticket R)) -- end of the locked scope
  | planning (request : Ticket R) -- inverse kinematics, OMPL and the spline fit, mutex not held
  | handOff (request : Ticket R) (trajectory : T) -- `callback_(trajectory)`
  | exited

/-- One client thread in `requestPlan`. -/
inductive ClientPc (R : Type) where
  | idle
  | store (request : R)
  | unlock (request : Ticket R)
  | notify (request : Ticket R)
  | returning (request : Ticket R)

/-- The thread that calls `stop`. -/
inductive StopPc where
  | idle
  | notify
  | join
  | returned
  deriving DecidableEq

/-- What happened, in order. Nothing in the program reads it. -/
inductive Entry (R T : Type) where
  | stored (request : Ticket R)
  | taken (request : Ticket R)
  | handed (request : Ticket R) (trajectory : T)
  | returned (request : Ticket R)

def Entry.stored? : Entry R T → Option (Ticket R)
  | .stored request => some request
  | _ => none

def Entry.taken? : Entry R T → Option (Ticket R)
  | .taken request => some request
  | _ => none

def Entry.handed? : Entry R T → Option (Ticket R)
  | .handed request _ => some request
  | _ => none

/-- Requests in lock order. -/
def stores (log : List (Entry R T)) : List (Ticket R) := log.filterMap Entry.stored?

/-- Requests the loop took, in order. -/
def takes (log : List (Entry R T)) : List (Ticket R) := log.filterMap Entry.taken?

/-- Requests whose trajectories reached the callback, in order. -/
def handOffs (log : List (Entry R T)) : List (Ticket R) := log.filterMap Entry.handed?

structure State (Client R T : Type) where
  running : Bool
  mutex : Option (Owner Client)
  pending : Option (Ticket R)
  loop : LoopPc R T
  stopper : StopPc
  clients : Client → ClientPc R
  log : List (Entry R T)

def State.setClient [DecidableEq Client] (state : State Client R T) (caller : Client) (pc : ClientPc R) :
    State Client R T :=
  { state with clients := fun other => if other = caller then pc else state.clients other }

/-- A notification reaches the loop only while it is blocked. -/
def LoopPc.notified : LoopPc R T → LoopPc R T
  | .blocked => .wake
  | pc => pc

/-- The steps of all threads. The outcome of a planning attempt is the environment's
choice: solvers may fail, succeed or take any time. -/
inductive Event (Client R O : Type) where
  | head | lock | test | block | spurious | wake | check | leave | take | unlock
  | plan (outcome : O)
  | handOff
  | callerLock (caller : Client) (request : R)
  | callerStore (caller : Client)
  | callerUnlock (caller : Client)
  | callerNotify (caller : Client)
  | callerReturn (caller : Client)
  | exchange | notifyAll | join

/-- `plan request outcome` is what an attempt with that solver outcome leads to: a
trajectory for the callback, or `none` where the loop continues without one. -/
inductive Step [DecidableEq Client] (plan : R → O → Option T) :
    State Client R T → Event Client R O → State Client R T → Prop where
  | head {state} (at_ : state.loop = .head) :
      Step plan state .head { state with loop := if state.running then .lock else .exited }
  | lock {state} (at_ : state.loop = .lock) (free : state.mutex = none) :
      Step plan state .lock { state with loop := .test, mutex := some .loop }
  -- `return !running_.load() || pending_request_.has_value();`
  | test {state} (at_ : state.loop = .test) :
      Step plan state .test
        { state with loop := if !state.running || state.pending.isSome then .check else .window }
  | block {state} (at_ : state.loop = .window) :
      Step plan state .block { state with loop := .blocked, mutex := none }
  | spurious {state} (at_ : state.loop = .blocked) :
      Step plan state .spurious { state with loop := .wake }
  | wake {state} (at_ : state.loop = .wake) (free : state.mutex = none) :
      Step plan state .wake { state with loop := .test, mutex := some .loop }
  | check {state} (at_ : state.loop = .check) :
      Step plan state .check { state with loop := if state.running then .take else .leave }
  | leave {state} (at_ : state.loop = .leave) :
      Step plan state .leave { state with loop := .exited, mutex := none }
  | take {state} (at_ : state.loop = .take) :
      Step plan state .take
        { state with
          loop := .unlock state.pending
          pending := none
          log := state.log ++ state.pending.toList.map .taken }
  | unlock {state request} (at_ : state.loop = .unlock request) :
      Step plan state .unlock { state with mutex := none, loop := request.elim .head .planning }
  | plan {state request} (outcome : O) (at_ : state.loop = .planning request) :
      Step plan state (.plan outcome)
        { state with loop := (plan request.request outcome).elim .head (.handOff request) }
  | handOff {state request trajectory} (at_ : state.loop = .handOff request trajectory) :
      Step plan state .handOff
        { state with loop := .head, log := state.log ++ [.handed request trajectory] }
  | callerLock {state} (caller : Client) (request : R) (at_ : state.clients caller = .idle)
      (free : state.mutex = none) :
      Step plan state (.callerLock caller request)
        { state.setClient caller (.store request) with mutex := some (.client caller) }
  | callerStore {state request} (caller : Client) (at_ : state.clients caller = .store request) :
      Step plan state (.callerStore caller)
        { state.setClient caller (.unlock ⟨(stores state.log).length, request⟩) with
          pending := some ⟨(stores state.log).length, request⟩
          log := state.log ++ [.stored ⟨(stores state.log).length, request⟩] }
  | callerUnlock {state request} (caller : Client) (at_ : state.clients caller = .unlock request) :
      Step plan state (.callerUnlock caller)
        { state.setClient caller (.notify request) with mutex := none }
  -- `request_cv_.notify_one()`: only the loop ever waits
  | callerNotify {state request} (caller : Client) (at_ : state.clients caller = .notify request) :
      Step plan state (.callerNotify caller)
        { state.setClient caller (.returning request) with loop := state.loop.notified }
  | callerReturn {state request} (caller : Client) (at_ : state.clients caller = .returning request) :
      Step plan state (.callerReturn caller)
        { state.setClient caller .idle with log := state.log ++ [.returned request] }
  -- `if (!running_.exchange(false)) return;`
  | exchange {state} (at_ : state.stopper = .idle) :
      Step plan state .exchange
        { state with running := false, stopper := if state.running then .notify else .returned }
  | notifyAll {state} (at_ : state.stopper = .notify) :
      Step plan state .notifyAll { state with stopper := .join, loop := state.loop.notified }
  | join {state} (at_ : state.stopper = .join) (done : state.loop = .exited) :
      Step plan state .join { state with stopper := .returned }

/-- `start()` has set `running_` and launched the thread; no call is in progress. -/
def initial : State Client R T where
  running := true
  mutex := none
  pending := none
  loop := .head
  stopper := .idle
  clients := fun _ => .idle
  log := []

def system [DecidableEq Client] (plan : R → O → Option T) :
    Transition.System (State Client R T) (Event Client R O) where
  start state := state = initial
  step := Step plan

end RoboticsRt.Planner

import RoboticsRt.Proofs.Mailbox

/-! Stopping the planner. `stop` clears `running_` without the request mutex, so its
notification can fall between the loop's predicate test and its block. -/

namespace RoboticsRt.Planner
open Transition

variable {Client R O T : Type} [DecidableEq Client] {plan : R → O → Option T}

def ClientPc.toNotify : ClientPc R → Bool
  | .store _ | .unlock _ | .notify _ => true
  | .idle | .returning _ => false

/-- `stop` waits for the loop, the loop waits for a notification, and nobody is left
to send one. -/
structure Hang (state : State Client R T) : Prop where
  joining : state.stopper = .join
  blocked : state.loop = .blocked
  stopped : state.running = false
  quiet : ∀ caller, (state.clients caller).toNotify = false

/-- `notify_all` does not fall between the loop's predicate test and its block. -/
def Heard (state : State Client R T) (event : Event Client R O) : Prop :=
  event = .notifyAll → state.loop ≠ .window

structure Released (state : State Client R T) : Prop where
  announced : state.stopper = .notify → state.running = false
  joining : state.stopper = .join → state.running = false ∧ state.loop ≠ .window ∧ state.loop ≠ .blocked

omit [DecidableEq Client] in
private theorem Released.frame {before after : State Client R T} (kept : Released before)
    (running : after.running = before.running) (stopper : after.stopper = before.stopper)
    (loop : before.loop ≠ .window → before.loop ≠ .blocked → before.running = false →
      after.loop ≠ .window ∧ after.loop ≠ .blocked) : Released after where
  announced waits := running.trans (kept.announced (stopper.symm.trans waits))
  joining waits := by
    obtain ⟨stopped, window, blocked⟩ := kept.joining (stopper.symm.trans waits)
    exact ⟨running.trans stopped, loop window blocked stopped⟩

theorem Released.step {before after : State Client R T} {event : Event Client R O}
    (kept : Released before) (heard : Heard before event) (taken : Step plan before event after) :
    Released after := by
  cases taken with
  | head at_ | check at_ =>
    refine kept.frame rfl rfl fun _ _ _ => ?_
    dsimp only
    split <;> exact ⟨nofun, nofun⟩
  | test at_ =>
    refine kept.frame rfl rfl fun _ _ stopped => ?_
    simp [stopped]
  | block at_ => exact kept.frame rfl rfl fun window _ _ => absurd at_ window
  | lock at_ free | wake at_ free | leave at_ | spurious at_ | take at_ | handOff at_ =>
    exact kept.frame rfl rfl fun _ _ _ => ⟨nofun, nofun⟩
  | @unlock request at_ =>
    refine kept.frame rfl rfl fun _ _ _ => ?_
    cases request <;> exact ⟨nofun, nofun⟩
  | @plan request outcome at_ =>
    refine kept.frame rfl rfl fun _ _ _ => ?_
    cases plan request.request outcome <;> exact ⟨nofun, nofun⟩
  | callerLock caller request at_ free => exact kept.frame rfl rfl fun window blocked _ => ⟨window, blocked⟩
  | callerStore caller at_ => exact kept.frame rfl rfl fun window blocked _ => ⟨window, blocked⟩
  | callerUnlock caller at_ => exact kept.frame rfl rfl fun window blocked _ => ⟨window, blocked⟩
  | callerNotify caller at_ =>
    refine kept.frame rfl rfl fun window _ _ => ⟨?_, LoopPc.notified_ne_blocked _⟩
    exact fun waits => window (LoopPc.notified_window waits)
  | callerReturn caller at_ => exact kept.frame rfl rfl fun window blocked _ => ⟨window, blocked⟩
  | exchange at_ =>
    refine ⟨fun _ => rfl, fun impossible => ?_⟩
    dsimp only at impossible
    split at impossible <;> cases impossible
  | notifyAll at_ =>
    refine ⟨(fun impossible => by cases impossible), fun _ => ⟨kept.announced at_, ?_, ?_⟩⟩
    · exact fun waits => heard rfl (LoopPc.notified_window waits)
    · exact LoopPc.notified_ne_blocked _
  | join at_ done => exact ⟨(fun impossible => by cases impossible), (fun impossible => by cases impossible)⟩

theorem released (plan : R → O → Option T) :
    ((system plan).restrict Heard).Invariant fun state : State Client R T => Released state where
  initial state start := by
    subst start
    exact ⟨(fun impossible => by cases impossible), (fun impossible => by cases impossible)⟩
  step _ _ _ kept taken := kept.step taken.1 taken.2

theorem finitely_many_calls {state : State Client R T} (reached : (system plan).Reachable state) :
    ∃ callers : List Client, ∀ caller, caller ∉ callers → state.clients caller = .idle := by
  have moved {before : State Client R T} {caller : Client} {pc : ClientPc R}
      (known : ∃ callers : List Client, ∀ other, other ∉ callers → before.clients other = .idle) :
      ∃ callers : List Client, ∀ other, other ∉ callers → (before.setClient caller pc).clients other = .idle := by
    obtain ⟨callers, idle⟩ := known
    refine ⟨caller :: callers, fun other absent => ?_⟩
    rw [List.mem_cons, not_or] at absent
    rw [before.setClient_other pc absent.1]
    exact idle other absent.2
  have invariant : (system plan).Invariant fun state : State Client R T =>
      ∃ callers : List Client, ∀ caller, caller ∉ callers → state.clients caller = .idle := by
    constructor
    · intro state start
      subst start
      exact ⟨[], fun _ _ => rfl⟩
    · intro before event after known taken
      cases taken with
      | callerLock | callerStore | callerUnlock | callerNotify | callerReturn => exact moved known
      | _ => exact known
  exact invariant.reachable reached

private theorem drain {state : State Client R T} (callers : List Client) (loop : state.loop = .window)
    (exclusive : Exclusive state) :
    ∃ events final, (system plan).Run state events final ∧ final.loop = .window ∧
      final.stopper = state.stopper ∧ final.running = state.running ∧
      ∀ caller, (final.clients caller).owes = true → (state.clients caller).owes = true ∧ caller ∉ callers := by
  induction callers generalizing state with
  | nil => exact ⟨[], state, .refl _, loop, rfl, rfl, fun _ owes => ⟨owes, by simp⟩⟩
  | cons caller rest ih =>
    have owned := exclusive.loop.mp (by rw [loop]; rfl)
    cases at_ : state.clients caller with
    | notify request =>
      have taken : Step plan state (.callerNotify caller) _ := .callerNotify caller at_
      have waits : state.loop.notified = .window := by rw [loop]; rfl
      obtain ⟨events, final, run, window, stopper, running, owed⟩ :=
        ih waits (exclusive.step taken)
      refine ⟨.callerNotify caller :: events, final, .head taken run, window, stopper, running, ?_⟩
      intro other owes
      obtain ⟨before, absent⟩ := owed other owes
      have different : other ≠ caller := by
        intro same
        subst other
        simp [State.setClient, ClientPc.owes] at before
      exact ⟨by simpa [State.setClient, different] using before, by simp [different, absent]⟩
    | unlock request =>
      have held := (exclusive.client caller).mp (by rw [at_]; rfl)
      simp [owned] at held
    | idle | store _ | returning _ =>
      obtain ⟨events, final, run, window, stopper, running, owed⟩ := ih loop exclusive
      refine ⟨events, final, run, window, stopper, running, fun other owes => ?_⟩
      obtain ⟨before, absent⟩ := owed other owes
      refine ⟨before, ?_⟩
      rw [List.mem_cons, not_or]
      refine ⟨fun same => ?_, absent⟩
      rw [same, at_] at before
      cases before

theorem Released.announced_running {state : State Client R T} (reached : (system plan).Reachable state)
    (announced : state.stopper = .notify) : state.running = false := by
  have invariant : (system plan).Invariant fun state : State Client R T =>
      state.stopper = .notify → state.running = false := by
    constructor
    · intro state start impossible
      subst start
      cases impossible
    · intro before event after known taken
      cases taken with
      | exchange => exact fun _ => rfl
      | notifyAll | join => exact fun impossible => by cases impossible
      | _ => exact known
  exact invariant.reachable reached announced

theorem unheard_hangs {state : State Client R T} (reached : (system plan).Reachable state)
    (announced : state.stopper = .notify) (window : state.loop = .window) :
    ∃ events final, (system plan).Run state events final ∧ Hang final := by
  obtain ⟨callers, idle⟩ := finitely_many_calls reached
  have stopped := Released.announced_running reached announced
  have taken : Step plan state .notifyAll _ := .notifyAll announced
  have after := ((exclusive plan).reachable reached).step taken
  have waits : state.loop.notified = .window := by rw [window]; rfl
  obtain ⟨events, final, run, loop, stopper, running, owed⟩ :=
    drain callers waits after
  have blocks : (system plan).Run final [.block] { final with loop := .blocked, mutex := none } :=
    .head (.block loop) (.refl _)
  have drained : (system plan).Run state (.notifyAll :: events) final := .head taken run
  refine ⟨_, _, drained.append blocks, stopper, rfl, running.trans stopped, fun caller => ?_⟩
  have owned := (exclusive plan).reachable (reached.run drained)
  have mutex := owned.loop.mp (by rw [loop]; rfl)
  have settled : (final.clients caller).owes = true → False := by
    intro owes
    obtain ⟨before, absent⟩ := owed caller owes
    have quiet : state.clients caller = .idle := idle caller absent
    rw [quiet] at before
    cases before
  cases at_ : final.clients caller with
  | store request =>
    have held := (owned.client caller).mp (by rw [at_]; rfl)
    simp [mutex] at held
  | unlock request | notify request => exact (settled (by rw [at_]; rfl)).elim
  | idle | returning request => simp [ClientPc.toNotify]

/-- `running_` is cleared without the mutex, so the notification may fall between the test of the
predicate and the block. Heard, no state reached is a hang. Unheard, one can still be reached. -/
theorem stop_hangs_unheard (plan : R → O → Option T) :
    (∀ state : State Client R T, ((system plan).restrict Heard).Reachable state → ¬ Hang state) ∧
    (∀ state : State Client R T, (system plan).Reachable state → state.stopper = .notify →
      ¬ Heard (O := O) state .notifyAll → ∃ events final, (system plan).Run state events final ∧ Hang final) := by
  constructor
  · intro state reached hang
    exact (((released plan).reachable reached).joining hang.joining).2.2 hang.blocked
  · intro state reached announced unheard
    have window : state.loop = .window := by
      by_contra elsewhere
      exact unheard fun _ => elsewhere
    exact unheard_hangs reached announced window

/-- The loop tests its predicate, `stop` runs up to its join, and the loop blocks. -/
theorem stop_hang_reached :
    ∃ state : State Unit Nat Nat, (system fun request (_ : Unit) => some request).Reachable state ∧ Hang state := by
  have run : (system fun request (_ : Unit) => some request).Run (initial : State Unit Nat Nat)
      [.head, .lock, .test, .exchange, .notifyAll, .block] _ :=
    .head (.head rfl) <| .head (.lock rfl rfl) <| .head (.test rfl) <| .head (.exchange rfl) <|
      .head (.notifyAll rfl) <| .head (.block rfl) <| .refl _
  exact ⟨_, ⟨initial, _, rfl, run⟩, rfl, rfl, rfl, fun _ => rfl⟩

end RoboticsRt.Planner

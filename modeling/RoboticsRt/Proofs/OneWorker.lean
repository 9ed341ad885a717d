import RoboticsRt.Proofs.InStep

/-! At most one worker thread, as long as the calls are in turn; and from every call that
is not, a run to a terminated process or to a second loop. -/

namespace RoboticsRt.Lifecycle
open Transition

variable {Client : Type} [DecidableEq Client] {state : State Client} {starter stopper : Option Client} {caller : Client}
variable (notifies : Bool)

theorem reach_assign (alive : state.terminated = false) (starting : (state.clients caller).starting = true) :
    ∃ events next id, (system notifies).Run state events next ∧ next.clients caller = .assign id ∧
      next.terminated = false ∧ next.thread = state.thread ∧
      ∀ other, other ≠ caller → next.clients other = state.clients other := by
  cases at_ : state.clients caller with
  | construct =>
    have built : Step notifies state (.construct caller) _ := .construct caller at_
    refine ⟨_, _, _, .single ⟨alive, built⟩, state.setClient_same caller _, alive, rfl, ?_⟩
    exact fun other => state.setClient_other _
  | assign id => exact ⟨_, state, id, .refl _, at_, alive, rfl, fun _ _ => rfl⟩
  | idle | startReturning | notify _ | joinable _ | join _ | stopReturning _ =>
    rw [at_] at starting
    cases starting

theorem start_terminates (alive : state.terminated = false) (held : state.thread ≠ none)
    (starting : (state.clients caller).starting = true) :
    ∃ events final, (system notifies).Run state events final ∧ ¬ Safe final := by
  obtain ⟨events, next, id, run, at_, up, same, -⟩ := reach_assign notifies alive starting
  refine ⟨_, _, run.tail ⟨up, .assign caller at_⟩, fun safe => ?_⟩
  have ended : next.thread.isSome = false := safe.alive
  rw [same, Option.isSome_iff_ne_none.mpr held] at ended
  cases ended

theorem finish_start (alive : state.terminated = false) (empty : state.thread = none)
    (starting : (state.clients caller).starting = true) :
    ∃ events after, (system notifies).Run state events after ∧ after.terminated = false ∧ after.thread ≠ none ∧
      ∀ other, other ≠ caller → after.clients other = state.clients other := by
  obtain ⟨events, next, id, run, at_, up, same, others⟩ := reach_assign notifies alive starting
  have none := same.trans empty
  refine ⟨_, _, run.tail ⟨up, .assign caller at_⟩, congrArg Option.isSome none, ?_, fun other different => ?_⟩
  · rw [none]
    nofun
  · exact (next.setClient_other _ different).trans (others other different)

theorem overlap_terminates (alive : state.terminated = false) (starting : (state.clients caller).starting = true)
    (inUse : state.thread ≠ none ∨ ∃ other, other ≠ caller ∧ (state.clients other).starting = true) :
    ∃ events final, (system notifies).Run state events final ∧ ¬ Safe final := by
  by_cases held : state.thread = none
  · obtain ⟨other, different, first⟩ := inUse.resolve_left (absurd held)
    obtain ⟨events, after, run, up, assigned, others⟩ := finish_start notifies alive held first
    have waits := others caller (Ne.symm different)
    obtain ⟨more, final, last, broken⟩ := start_terminates notifies up assigned (waits ▸ starting)
    exact ⟨_, final, run.append last, broken⟩
  · exact start_terminates notifies alive held starting

theorem exchange_terminates (state : State Client) (alive : state.terminated = false) (off : state.running = false)
    (inUse : state.thread ≠ none ∨ ∃ other, other ≠ caller ∧ (state.clients other).starting = true) :
    ∃ events final, (system notifies).Run
      { state.overtake.setClient caller (if state.running then .startReturning else .construct) with running := true }
      events final ∧ ¬ Safe final := by
  rw [off]
  have own := congrArg ClientPc.starting (state.overtake.setClient_same caller .construct)
  refine overlap_terminates notifies alive own (inUse.imp_right fun ⟨other, different, first⟩ => ⟨other, different, ?_⟩)
  have same := congrArg ClientPc.starting (state.overtake.setClient_other .construct different)
  exact (same.trans (ClientPc.overtaken_starting _)).trans first

theorem joinable_terminates {later : Bool} (alive : state.terminated = false) (off : state.running = false)
    (empty : state.thread = none) {first : Client} (different : first ≠ caller)
    (starting : (state.clients first).starting = true) :
    ∃ events final, (system notifies).Run
      (state.setClient caller (if state.thread.isSome then .join later else .stopReturning later)) events final ∧
      ¬ Safe final := by
  rw [empty]
  let returning := state.setClient caller (.stopReturning later)
  let ready := returning.setClient caller .idle
  have returns : Step notifies returning (.stopReturn caller) ready :=
    .stopReturn caller (state.setClient_same caller (.stopReturning later))
  have begins : Step notifies ready (.startExchange caller) _ :=
    .startExchange caller (returning.setClient_same caller .idle)
  have pending : (ready.clients first).starting = true := by
    rw [returning.setClient_other _ different, state.setClient_other _ different]
    exact starting
  obtain ⟨events, final, last, broken⟩ :=
    exchange_terminates notifies ready alive off (.inr ⟨first, different, pending⟩)
  exact ⟨_, final, .head ⟨alive, returns⟩ (.head ⟨alive, begins⟩ last), broken⟩

theorem return_overlaps (alive : state.terminated = false) (at_ : state.clients caller = .idle)
    (off : state.running = false)
    (busy : (∃ id, Executing state id) ∨ ∃ other, state.clients other = .construct) :
    ∃ events final, (system notifies).Run
      { state.setClient caller (if !state.running then .stopReturning false
          else if notifies then .notify false else .joinable false) with
        running := false } events final ∧ ¬ Safe final := by
  rw [off]
  rcases busy with ⟨id, runs⟩ | ⟨other, builds⟩
  · exact ⟨[], _, .refl _, fun safe => safe.stopped caller (state.setClient_same caller _) id runs⟩
  · have different : caller ≠ other := by
      rintro rfl
      rw [at_] at builds
      cases builds
    have still : (state.setClient caller (.stopReturning false)).clients other = .construct :=
      (state.setClient_other _ different.symm).trans builds
    have built : Step notifies { state.setClient caller (.stopReturning false) with running := false }
        (.construct other) _ := .construct other still
    refine ⟨_, _, .single ⟨alive, built⟩, fun safe => safe.stopped caller ?_ state.loops.length ?_⟩
    · exact (State.setClient_other _ _ different).trans (state.setClient_same caller _)
    · exact ⟨.looping, List.getElem?_concat_length, nofun⟩

theorem InStep.broken {event : Event Client} {after : State Client} (inStep : InStep state starter stopper)
    (taken : Step notifies state event after) (outOfTurn : ¬ InTurn state event) :
    ∃ events final, (system notifies).Run after events final ∧ ¬ Safe final := by
  cases taken with
  | startExchange caller at_ =>
    simp only [InTurn, not_forall, Bool.not_eq_false] at outOfTurn
    obtain ⟨off, other, stops⟩ := outOfTurn
    have stopper := (inStep.stops other).mp stops
    refine exchange_terminates notifies state inStep.alive off ?_
    rcases inStep.held (by rw [stopper]; nofun) with pending | held
    · obtain ⟨first, rfl⟩ := Option.ne_none_iff_exists'.mp pending
      have starting := (inStep.starts first).mpr rfl
      refine .inr ⟨first, ?_, starting⟩
      rintro rfl
      rw [at_] at starting
      cases starting
    · exact .inl held
  | joinable caller at_ =>
    simp only [InTurn, not_forall, Bool.not_eq_false] at outOfTurn
    obtain ⟨first, starting⟩ := outOfTurn
    have pending := (inStep.starts first).mp starting
    have stops := inStep.stopper_of at_ rfl
    have off : state.running = false := by
      refine Bool.eq_false_iff.mpr fun on => ?_
      have quiet := (inStep.running.mp on).1
      cases stops.symm.trans quiet
    refine joinable_terminates notifies inStep.alive off (inStep.unassigned (by rw [pending]; nofun)) ?_ starting
    rintro rfl
    rw [at_] at starting
    cases starting
  | stopExchange caller at_ =>
    simp only [InTurn, Classical.not_imp, Classical.not_and_iff_not_or_not, not_forall, not_not] at outOfTurn
    obtain ⟨off, busy⟩ := outOfTurn
    exact return_overlaps notifies inStep.alive at_ off busy
  | construct | assign | startReturn | notifyAll | join | joinThrow | stopReturn | load | finish =>
    exact absurd trivial outOfTurn

/-- `exchange` on the flag does not cover the handle: a start and a stop that overlap both pass
it. In turn they are safe, and each step out of turn leads on to a violation. -/
theorem one_worker (notifies : Bool) :
    (∀ state : State Client, ((system notifies).restrict InTurn).Reachable state → Safe state) ∧
      ∀ (state : State Client) (event : Event Client) (after : State Client),
        ((system notifies).restrict InTurn).Reachable state → (system notifies).step state event after →
        ¬ InTurn state event → ∃ events final, (system notifies).Run after events final ∧ ¬ Safe final := by
  constructor
  · intro state reached
    obtain ⟨starter, stopper, inStep⟩ := (inStep_invariant notifies).reachable reached
    exact inStep.safe
  · intro state event after reached taken outOfTurn
    obtain ⟨starter, stopper, inStep⟩ := (inStep_invariant notifies).reachable reached
    exact inStep.broken notifies taken.2 outOfTurn

/-- A second client starts after the exchange of a `stop` and before its join. -/
theorem one_worker_overlap :
    (∃ final : State Bool, (system true).Run initial
      [.startExchange true, .construct true, .assign true, .startReturn true, .stopExchange true,
        .startExchange false, .construct false, .assign false] final ∧ ¬ Safe final) ∧
    ∃ final : State Bool, (system false).Run initial
      [.startExchange true, .construct true, .assign true, .startReturn true, .stopExchange true,
        .startExchange false, .construct false, .assign false] final ∧ ¬ Safe final := by
  suffices overlap : ∀ notifies, ∃ final : State Bool, (system notifies).Run initial
      [.startExchange true, .construct true, .assign true, .startReturn true, .stopExchange true,
        .startExchange false, .construct false, .assign false] final ∧ ¬ Safe final from
    ⟨overlap true, overlap false⟩
  intro notifies
  have ends {before final : State Bool} {event : Event Bool}
      (taken : (system notifies).step before event final) (ended : final.terminated = true) :
      ∃ final, (system notifies).Run before [event] final ∧ ¬ Safe final :=
    ⟨final, .single taken, fun safe => by cases ended.symm.trans safe.alive⟩
  have goes {before middle : State Bool} {event : Event Bool} {rest : List (Event Bool)}
      (taken : (system notifies).step before event middle)
      (last : ∃ final, (system notifies).Run middle rest final ∧ ¬ Safe final) :
      ∃ final, (system notifies).Run before (event :: rest) final ∧ ¬ Safe final :=
    last.imp fun _ => And.imp_left (.head taken)
  -- the flag is up and the handle is held
  refine goes ⟨rfl, .startExchange true rfl⟩ (goes ⟨rfl, .construct true rfl⟩ ?_)
  refine goes ⟨rfl, .assign true rfl⟩ (goes ⟨rfl, .startReturn true rfl⟩ ?_)
  -- the `stop` clears the flag, the handle stays
  refine goes ⟨rfl, .stopExchange true rfl⟩ (goes ⟨rfl, .startExchange false rfl⟩ ?_)
  exact goes ⟨rfl, .construct false rfl⟩ (ends ⟨rfl, .assign false rfl⟩ rfl)

end RoboticsRt.Lifecycle

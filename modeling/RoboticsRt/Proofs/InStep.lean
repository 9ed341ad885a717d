import RoboticsRt.Lifecycle
import Mathlib.Tactic.Common

/-! The flag, the handle and the loop. Three kinds of overlapping calls bring them out of
step: a `start` that gets past its exchange before a `stop` has joined, a `stop` that
looks at `thread_` before a `start` has assigned it, and a `stop` that finds the flag
already cleared and does not wait. Without these three they stay in step. -/

namespace RoboticsRt.Lifecycle
open Transition

variable {Client : Type}

def ClientPc.starting : ClientPc → Bool
  | .construct | .assign _ => true
  | _ => false

def ClientPc.stopping : ClientPc → Bool
  | .notify _ | .joinable _ | .join _ => true
  | _ => false

def Executing (state : State Client) (id : Nat) : Prop := ∃ loop, state.loops[id]? = some loop ∧ loop ≠ .exited

structure Safe (state : State Client) : Prop where
  alive : state.terminated = false
  oneLoop : ∀ i j, Executing state i → Executing state j → i = j
  stopped : ∀ caller, state.clients caller = .stopReturning false → ∀ id, ¬ Executing state id

/-- The step is not one of the three that break it. -/
def InTurn (state : State Client) : Event Client → Prop
  | .startExchange _ => state.running = false → ∀ other, (state.clients other).stopping = false
  | .joinable _ => ∀ other, (state.clients other).starting = false
  | .stopExchange _ =>
    state.running = false → (∀ id, ¬ Executing state id) ∧ ∀ other, state.clients other ≠ .construct
  | _ => True

/-- Flag, handle and loop in step, with the one call that is starting and the one that is
stopping. -/
structure InStep (state : State Client) (starter stopper : Option Client) : Prop where
  alive : state.terminated = false
  starts : ∀ c, (state.clients c).starting = true ↔ starter = some c
  stops : ∀ c, (state.clients c).stopping = true ↔ stopper = some c
  running : state.running = true ↔ stopper = none ∧ (starter ≠ none ∨ state.thread ≠ none)
  unassigned : starter ≠ none → state.thread = none
  held : stopper ≠ none → starter ≠ none ∨ state.thread ≠ none
  joining : ∀ c later, state.clients c = .join later → starter = none
  executing : ∀ id, Executing state id → state.thread = some id ∨ ∃ c, state.clients c = .assign id
  stopped : ∀ c, state.clients c = .stopReturning false →
    (∀ id, ¬ Executing state id) ∧ ∀ other, state.clients other ≠ .construct

theorem InStep.starter_of {state : State Client} {starter stopper : Option Client} (inStep : InStep state starter stopper)
    {caller : Client} {pc : ClientPc} (at_ : state.clients caller = pc) (starting : pc.starting = true) :
    starter = some caller := (inStep.starts caller).mp (by rw [at_]; exact starting)

theorem InStep.stopper_of {state : State Client} {starter stopper : Option Client} (inStep : InStep state starter stopper)
    {caller : Client} {pc : ClientPc} (at_ : state.clients caller = pc) (stopping : pc.stopping = true) :
    stopper = some caller := (inStep.stops caller).mp (by rw [at_]; exact stopping)

theorem InStep.safe {state : State Client} {starter stopper : Option Client} (inStep : InStep state starter stopper) :
    Safe state where
  alive := inStep.alive
  oneLoop i j first second := by
    rcases inStep.executing i first with here | ⟨c, here⟩ <;> rcases inStep.executing j second with there | ⟨d, there⟩
    · exact Option.some.inj (here.symm.trans there)
    · have none := inStep.unassigned (by rw [inStep.starter_of there rfl]; nofun)
      rw [none] at here
      cases here
    · have none := inStep.unassigned (by rw [inStep.starter_of here rfl]; nofun)
      rw [none] at there
      cases there
    · cases (inStep.starter_of here rfl).symm.trans (inStep.starter_of there rfl)
      cases here.symm.trans there
      rfl
  stopped c returning := (inStep.stopped c returning).1

variable [DecidableEq Client] {state : State Client} {starter stopper : Option Client} {caller : Client}

@[simp] theorem State.setClient_same (state : State Client) (caller : Client) (pc : ClientPc) :
    (state.setClient caller pc).clients caller = pc := if_pos rfl

theorem State.setClient_other (state : State Client) {caller other : Client} (pc : ClientPc) (different : other ≠ caller) :
    (state.setClient caller pc).clients other = state.clients other := if_neg different

/-- What is said of every client is checked for the caller and the others. -/
theorem State.setClient_all (property : Client → ClientPc → Prop) (state : State Client) {caller : Client}
    {pc : ClientPc} (new : property caller pc) (old : ∀ other, other ≠ caller → property other (state.clients other)) :
    ∀ c, property c ((state.setClient caller pc).clients c) := by
  intro c
  by_cases same : c = caller
  · rw [same, state.setClient_same]
    exact new
  · rw [state.setClient_other pc same]
    exact old c same

theorem State.setClient_quiet (pc : ClientPc) (passive : pc ≠ .construct)
    (quiet : (∀ id, ¬ Executing state id) ∧ ∀ other, state.clients other ≠ .construct) :
    (∀ id, ¬ Executing (state.setClient caller pc) id) ∧
      ∀ other, (state.setClient caller pc).clients other ≠ .construct :=
  ⟨quiet.1, state.setClient_all (fun _ pc => pc ≠ .construct) passive fun other _ => quiet.2 other⟩

/-- A step of a call that neither begins nor ends a start or a stop. -/
theorem InStep.move (inStep : InStep state starter stopper) {old : ClientPc} (at_ : state.clients caller = old)
    (pc : ClientPc) (before : old.starting = false) (starting : pc.starting = false) (stopping : pc.stopping = old.stopping)
    (joining : ∀ later, pc = .join later → starter = none)
    (stopped : pc = .stopReturning false → (∀ id, ¬ Executing state id) ∧ ∀ other, state.clients other ≠ .construct) :
    InStep (state.setClient caller pc) starter stopper where
  alive := inStep.alive
  starts := by
    refine state.setClient_all (fun c pc => pc.starting = true ↔ starter = some c) ?_ fun other _ => inStep.starts other
    have same := inStep.starts caller
    rw [at_, before] at same
    rw [starting]
    exact same
  stops := by
    refine state.setClient_all (fun c pc => pc.stopping = true ↔ stopper = some c) ?_ fun other _ => inStep.stops other
    have same := inStep.stops caller
    rw [at_, ← stopping] at same
    exact same
  running := inStep.running
  unassigned := inStep.unassigned
  held := inStep.held
  joining := state.setClient_all (fun _ pc => ∀ later, pc = .join later → starter = none) joining
    fun other _ => inStep.joining other
  executing id runs := by
    refine (inStep.executing id runs).imp_right fun ⟨c, assigns⟩ => ⟨c, ?_⟩
    have different : c ≠ caller := by
      rintro rfl
      cases at_.symm.trans assigns
      cases before
    exact (state.setClient_other pc different).trans assigns
  stopped := by
    have passive : pc ≠ .construct := by
      rintro rfl
      cases starting
    exact state.setClient_all (fun _ pc => pc = .stopReturning false → _)
      (fun same => State.setClient_quiet pc passive (stopped same))
      fun other _ same => State.setClient_quiet pc passive (inStep.stopped other same)

omit [DecidableEq Client] in
theorem InStep.loops (inStep : InStep state starter stopper) {loops : List Loop}
    (fewer : ∀ id, Executing { state with loops } id → Executing state id) :
    InStep { state with loops } starter stopper :=
  { inStep with
    executing := fun id runs => inStep.executing id (fewer id runs)
    stopped := fun c returning =>
      ⟨fun id runs => (inStep.stopped c returning).1 id (fewer id runs), (inStep.stopped c returning).2⟩ }

@[simp] theorem ClientPc.overtaken_starting (pc : ClientPc) : pc.overtaken.starting = pc.starting := by cases pc <;> rfl

@[simp] theorem ClientPc.overtaken_stopping (pc : ClientPc) : pc.overtaken.stopping = pc.stopping := by cases pc <;> rfl

theorem ClientPc.overtaken_returning (pc : ClientPc) : pc.overtaken ≠ .stopReturning false := by cases pc <;> nofun

omit [DecidableEq Client] in
theorem InStep.overtake (inStep : InStep state starter none) : InStep state.overtake starter none where
  alive := inStep.alive
  starts c := by
    rw [State.overtake, ClientPc.overtaken_starting]
    exact inStep.starts c
  stops c := by
    rw [State.overtake, ClientPc.overtaken_stopping]
    exact inStep.stops c
  running := inStep.running
  unassigned := inStep.unassigned
  held := inStep.held
  joining c later at_ := by
    have stopping : (state.clients c).overtaken.stopping = true := congrArg ClientPc.stopping at_
    rw [ClientPc.overtaken_stopping, inStep.stops c] at stopping
    cases stopping
  executing id runs := by
    refine (inStep.executing id runs).imp_right fun ⟨c, at_⟩ => ⟨c, ?_⟩
    exact congrArg ClientPc.overtaken at_
  stopped c returning := absurd returning (ClientPc.overtaken_returning _)

omit [DecidableEq Client] in
theorem InStep.idle_flag (inStep : InStep state starter none) (off : state.running = false) :
    starter = none ∧ state.thread = none := by
  constructor
  · by_contra pending
    rw [inStep.running.mpr ⟨rfl, .inl pending⟩] at off
    cases off
  · by_contra held
    rw [inStep.running.mpr ⟨rfl, .inr held⟩] at off
    cases off

theorem InStep.startExchange (inStep : InStep state starter stopper) (at_ : state.clients caller = .idle)
    (inTurn : InTurn state (.startExchange caller)) :
    ∃ starter stopper, InStep
      { state.overtake.setClient caller (if state.running then .startReturning else .construct) with running := true }
      starter stopper := by
  have idle : state.overtake.clients caller = .idle := congrArg ClientPc.overtaken at_
  cases flag : state.running with
  | true =>
    have quiet : stopper = none := (inStep.running.mp flag).1
    subst quiet
    refine ⟨starter, none, ?_⟩
    have moved := inStep.overtake.move idle .startReturning rfl rfl rfl nofun nofun
    have same := congrArg (fun on => { state.overtake.setClient caller .startReturning with running := on }) flag
    exact same ▸ moved
  | false =>
    -- the exchange is won, so no `stop` may be between its own and its join
    have quiet : stopper = none := by
      by_contra stopping
      obtain ⟨d, rfl⟩ := Option.ne_none_iff_exists'.mp stopping
      have stops := (inStep.stops d).mpr rfl
      rw [inTurn flag d] at stops
      cases stops
    subst quiet
    obtain ⟨rfl, empty⟩ := inStep.idle_flag flag
    have kept := inStep.overtake
    refine ⟨some caller, none, ?_⟩
    exact {
      alive := kept.alive
      starts := by
        refine state.overtake.setClient_all (fun c pc => pc.starting = true ↔ some caller = some c)
          (iff_of_true rfl rfl) fun other different => ?_
        rw [kept.starts other]
        simp [different.symm]
      stops := by
        refine state.overtake.setClient_all (fun c pc => pc.stopping = true ↔ none = some c) ?_
          fun other _ => kept.stops other
        exact iff_of_false nofun nofun
      running := iff_of_true rfl ⟨rfl, .inl nofun⟩
      unassigned := fun _ => empty
      held := fun stopping => absurd rfl stopping
      joining := state.overtake.setClient_all (fun _ pc => ∀ later, pc = .join later → some caller = none) nofun
        fun other _ later joins => by
          have stops := kept.stopper_of joins rfl
          cases stops
      executing := fun id runs => by
        rcases kept.executing id runs with held | ⟨c, assigns⟩
        · rw [show state.overtake.thread = none from empty] at held
          cases held
        · have starts := kept.starter_of assigns rfl
          cases starts
      stopped := state.overtake.setClient_all (fun _ pc => pc = .stopReturning false → _) nofun
        fun other _ returning => absurd returning (ClientPc.overtaken_returning _) }

theorem InStep.stopExchange (inStep : InStep state starter stopper) (at_ : state.clients caller = .idle)
    (inTurn : InTurn state (.stopExchange caller)) (notifies : Bool) :
    ∃ starter stopper, InStep
      { state.setClient caller (if !state.running then .stopReturning false
          else if notifies then .notify false else .joinable false) with
        running := false } starter stopper := by
  cases flag : state.running with
  | false =>
    refine ⟨starter, stopper, ?_⟩
    have moved := inStep.move at_ (.stopReturning false) rfl rfl rfl nofun
      fun _ => inTurn flag
    have same := congrArg (fun on => { state.setClient caller (.stopReturning false) with running := on }) flag
    exact same ▸ moved
  | true =>
    obtain ⟨quiet, up⟩ := inStep.running.mp flag
    subst quiet
    have waits : ∃ pc : ClientPc, (if !true then ClientPc.stopReturning false
        else if notifies then .notify false else .joinable false) = pc ∧ (pc = .notify false ∨ pc = .joinable false) := by
      cases notifies
      · exact ⟨_, rfl, .inr rfl⟩
      · exact ⟨_, rfl, .inl rfl⟩
    obtain ⟨pc, same, form⟩ := waits
    rw [same]
    have passive : pc.starting = false ∧ pc.stopping = true ∧ (∀ later, pc ≠ .join later) ∧
        pc ≠ .stopReturning false := by
      rcases form with rfl | rfl <;> exact ⟨rfl, rfl, nofun, nofun⟩
    refine ⟨starter, some caller, ?_⟩
    exact {
      alive := inStep.alive
      starts := by
        refine state.setClient_all (fun c pc => pc.starting = true ↔ starter = some c) ?_
          fun other _ => inStep.starts other
        have idle := inStep.starts caller
        rw [at_] at idle
        rw [passive.1]
        exact idle
      stops := by
        refine state.setClient_all (fun c pc => pc.stopping = true ↔ some caller = some c)
          (iff_of_true passive.2.1 rfl) fun other different => ?_
        rw [inStep.stops other]
        simp [different.symm]
      running := iff_of_false nofun fun stopped => by cases stopped.1
      unassigned := inStep.unassigned
      held := fun _ => up
      joining := by
        refine state.setClient_all (fun _ pc => ∀ later, pc = .join later → starter = none) ?_
          fun other _ => inStep.joining other
        exact fun later joins => absurd joins (passive.2.2.1 later)
      executing := fun id runs => by
        refine (inStep.executing id runs).imp_right fun ⟨c, assigns⟩ => ⟨c, ?_⟩
        have different : c ≠ caller := by
          rintro rfl
          rw [at_] at assigns
          cases assigns
        exact (state.setClient_other pc different).trans assigns
      stopped := by
        have building : pc ≠ .construct := by rcases form with rfl | rfl <;> nofun
        exact state.setClient_all (fun _ pc => pc = .stopReturning false → _)
          (fun returning => absurd returning passive.2.2.2)
          fun other _ returning => State.setClient_quiet pc building (inStep.stopped other returning) }

theorem InStep.construct (inStep : InStep state starter stopper) (at_ : state.clients caller = .construct) :
    InStep { state.setClient caller (.assign state.loops.length) with loops := state.loops ++ [.looping] }
      starter stopper := by
  have own : starter = some caller := inStep.starter_of at_ rfl
  subst own
  have empty := inStep.unassigned nofun
  have none (id : Nat) : ¬ Executing state id := by
    intro runs
    rcases inStep.executing id runs with held | ⟨c, assigns⟩
    · rw [empty] at held
      cases held
    · have starts := inStep.starter_of assigns rfl
      cases starts
      rw [at_] at assigns
      cases assigns
  exact {
    alive := inStep.alive
    starts := by
      refine state.setClient_all (fun c pc => pc.starting = true ↔ some caller = some c) (iff_of_true rfl rfl)
        fun other _ => inStep.starts other
    stops := by
      refine state.setClient_all (fun c pc => pc.stopping = true ↔ stopper = some c) ?_
        fun other _ => inStep.stops other
      have building := inStep.stops caller
      rw [at_] at building
      exact building
    running := inStep.running
    unassigned := inStep.unassigned
    held := inStep.held
    joining := state.setClient_all (fun _ pc => ∀ later, pc = .join later → some caller = Option.none) nofun
      fun other _ => inStep.joining other
    executing := fun id ⟨loop, here, runs⟩ => by
      rw [List.getElem?_append] at here
      split at here
      · exact absurd ⟨loop, here, runs⟩ (none id)
      · have last : id = state.loops.length := by
          have bound := (List.getElem?_eq_some_iff.mp here).1
          rw [List.length_singleton] at bound
          omega
        exact .inr ⟨caller, by rw [last]; exact state.setClient_same caller _⟩
    stopped := state.setClient_all (fun _ pc => pc = .stopReturning false → _) nofun
      fun other _ returning => absurd at_ ((inStep.stopped other returning).2 caller) }

theorem InStep.assign {id : Nat} (inStep : InStep state starter stopper) (at_ : state.clients caller = .assign id) :
    InStep
      { state.setClient caller .startReturning with
        thread := if state.thread.isSome then state.thread else some id
        terminated := state.thread.isSome } none stopper := by
  have own : starter = some caller := inStep.starter_of at_ rfl
  subst own
  have empty := inStep.unassigned nofun
  rw [empty]
  exact {
    alive := rfl
    starts := by
      refine state.setClient_all (fun c pc => pc.starting = true ↔ none = some c) (iff_of_false nofun nofun)
        fun other different => ?_
      rw [inStep.starts other]
      simp [different.symm]
    stops := by
      refine state.setClient_all (fun c pc => pc.stopping = true ↔ stopper = some c) ?_
        fun other _ => inStep.stops other
      have assigning := inStep.stops caller
      rw [at_] at assigning
      exact assigning
    running := by
      have same : (state.setClient caller .startReturning).running = state.running := rfl
      simpa [same] using inStep.running
    unassigned := fun pending => absurd rfl pending
    held := fun _ => .inr nofun
    joining := fun _ _ _ => rfl
    executing := fun i runs => by
      rcases inStep.executing i runs with held | ⟨c, assigns⟩
      · rw [empty] at held
        cases held
      · have starts := inStep.starter_of assigns rfl
        cases starts
        cases at_.symm.trans assigns
        exact .inl rfl
    stopped := state.setClient_all (fun _ pc => pc = .stopReturning false → _) nofun
      fun other _ returning => State.setClient_quiet .startReturning nofun (inStep.stopped other returning) }

theorem InStep.join {later : Bool} {id : Nat} (inStep : InStep state starter stopper)
    (at_ : state.clients caller = .join later) (held : state.thread = some id)
    (done : state.loops[id]? = some .exited) :
    InStep { state.setClient caller (.stopReturning later) with thread := none } none none := by
  have own : stopper = some caller := inStep.stopper_of at_ rfl
  have none : starter = none := inStep.joining caller later at_
  subst own none
  have rest (i : Nat) : ¬ Executing state i := by
    intro ⟨loop, here, runs⟩
    rcases inStep.executing i ⟨loop, here, runs⟩ with held' | ⟨c, assigns⟩
    · cases held.symm.trans held'
      cases done.symm.trans here
      exact runs rfl
    · have starts := inStep.starter_of assigns rfl
      cases starts
  have built (other : Client) : state.clients other ≠ .construct := by
    intro builds
    have starts := inStep.starter_of builds rfl
    cases starts
  exact {
    alive := inStep.alive
    starts := by
      refine state.setClient_all (fun c pc => pc.starting = true ↔ Option.none = some c) (iff_of_false nofun nofun)
        fun other _ => inStep.starts other
    stops := by
      refine state.setClient_all (fun c pc => pc.stopping = true ↔ Option.none = some c) (iff_of_false nofun nofun)
        fun other different => ?_
      rw [inStep.stops other]
      simp [different.symm]
    running := by
      refine iff_of_false (fun on => ?_) fun up => ?_
      · have quiet := (inStep.running.mp on).1
        cases quiet
      · exact up.2.elim (absurd rfl) (absurd rfl)
    unassigned := fun _ => rfl
    held := fun stopping => absurd rfl stopping
    joining := fun _ _ _ => rfl
    executing := fun i runs => absurd runs (rest i)
    stopped := fun _ _ => State.setClient_quiet (.stopReturning later) nofun ⟨rest, built⟩ }

omit [DecidableEq Client] in
theorem Executing.of_setLoop {id other : Nat} {before after : Loop} (here : state.loops[id]? = some before)
    (runs : before ≠ .exited) (later : Executing (state.setLoop id after) other) : Executing state other := by
  obtain ⟨loop, found, executing⟩ := later
  by_cases same : id = other
  · exact ⟨before, same ▸ here, runs⟩
  · rw [State.setLoop, List.getElem?_set_ne same] at found
    exact ⟨loop, found, executing⟩

theorem InStep.step {notifies : Bool} {event : Event Client} {after : State Client}
    (inStep : InStep state starter stopper) (inTurn : InTurn state event) (taken : Step notifies state event after) :
    ∃ starter stopper, InStep after starter stopper := by
  cases taken with
  | startExchange caller at_ => exact inStep.startExchange at_ inTurn
  | construct caller at_ => exact ⟨_, _, inStep.construct at_⟩
  | assign caller at_ => exact ⟨_, _, inStep.assign at_⟩
  | startReturn caller at_ | stopReturn caller at_ =>
    exact ⟨_, _, inStep.move at_ .idle rfl rfl rfl nofun nofun⟩
  | stopExchange caller at_ => exact inStep.stopExchange at_ inTurn notifies
  | @notifyAll later caller at_ =>
    exact ⟨_, _, inStep.move at_ (.joinable later) rfl rfl rfl nofun nofun⟩
  | @joinable later caller at_ =>
    have own : stopper = some caller := inStep.stopper_of at_ rfl
    -- the handle is there to be joined because no `start` is about to bring it
    have none : starter = none := by
      by_contra pending
      obtain ⟨c, rfl⟩ := Option.ne_none_iff_exists'.mp pending
      have starts := (inStep.starts c).mpr rfl
      rw [inTurn c] at starts
      cases starts
    have held : state.thread.isSome = true := by
      rcases inStep.held (by rw [own]; nofun) with pending | held
      · exact absurd none pending
      · exact Option.isSome_iff_ne_none.mpr held
    rw [held, if_pos rfl]
    exact ⟨_, _, inStep.move at_ (.join later) rfl rfl rfl (fun _ _ => none) nofun⟩
  | join caller at_ held done => exact ⟨_, _, inStep.join at_ held done⟩
  | @joinThrow later caller at_ held =>
    have own : stopper = some caller := inStep.stopper_of at_ rfl
    rcases inStep.held (by rw [own]; nofun) with pending | some
    · exact absurd (inStep.joining caller later at_) pending
    · exact absurd held some
  | load id at_ => exact ⟨_, _, inStep.loops fun other => Executing.of_setLoop at_ nofun⟩
  | finish id at_ => exact ⟨_, _, inStep.loops fun other => Executing.of_setLoop at_ nofun⟩

omit [DecidableEq Client] in
theorem InStep.initial : InStep (initial : State Client) none none where
  alive := rfl
  starts _ := iff_of_false nofun nofun
  stops _ := iff_of_false nofun nofun
  running := iff_of_false nofun fun up => up.2.elim (absurd rfl) (absurd rfl)
  unassigned pending := absurd rfl pending
  held stopping := absurd rfl stopping
  joining _ _ _ := rfl
  executing _ runs := by
    obtain ⟨_, here, _⟩ := runs
    cases here
  stopped _ returning := nomatch returning

theorem inStep_invariant (notifies : Bool) :
    ((system notifies).restrict InTurn).Invariant fun state : State Client =>
      ∃ starter stopper, InStep state starter stopper where
  initial state start := by
    rw [show state = Lifecycle.initial from start]
    exact ⟨_, _, .initial⟩
  step before event after holds taken := by
    obtain ⟨starter, stopper, inStep⟩ := holds
    exact inStep.step taken.1 taken.2.2

end RoboticsRt.Lifecycle

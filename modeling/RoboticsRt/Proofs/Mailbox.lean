import RoboticsRt.Planner
import RoboticsRt.Library.History
import Mathlib.Data.List.Induction

/-! The request slot between clients and the planning loop. One invariant says who
holds the mutex, a second that a stored request is never left unseen, a third what
the history of stores, takes and hand-offs looks like. -/

namespace RoboticsRt.Planner
open Transition History

variable {Client R O T : Type} [DecidableEq Client] {plan : R → O → Option T}

def LoopPc.holds : LoopPc R T → Bool
  | .test | .window | .check | .leave | .take | .unlock _ => true
  | _ => false

/-- The request the loop works on between taking it and giving it up. -/
def LoopPc.carried : LoopPc R T → Option (Ticket R)
  | .unlock request => request
  | .planning request | .handOff request _ => some request
  | _ => none

def ClientPc.holds : ClientPc R → Bool
  | .store _ | .unlock _ => true
  | _ => false

def ClientPc.owes : ClientPc R → Bool
  | .unlock _ | .notify _ => true
  | _ => false

/-- The request a call has stored but not yet returned for. -/
def ClientPc.stored? : ClientPc R → Option (Ticket R)
  | .unlock request | .notify request | .returning request => some request
  | _ => none

@[simp] theorem LoopPc.notified_holds (pc : LoopPc R T) : pc.notified.holds = pc.holds := by
  cases pc <;> rfl

@[simp] theorem LoopPc.notified_carried (pc : LoopPc R T) : pc.notified.carried = pc.carried := by
  cases pc <;> rfl

theorem LoopPc.notified_ne_blocked (pc : LoopPc R T) : pc.notified ≠ .blocked := by
  cases pc <;> simp [LoopPc.notified]

theorem LoopPc.notified_window {pc : LoopPc R T} (at_ : pc.notified = .window) : pc = .window := by
  cases pc <;> simp_all [LoopPc.notified]

@[simp] theorem State.setClient_same (state : State Client R T) (caller : Client) (pc : ClientPc R) :
    (state.setClient caller pc).clients caller = pc := by simp [State.setClient]

theorem State.setClient_other (state : State Client R T) {caller other : Client} (pc : ClientPc R)
    (different : other ≠ caller) : (state.setClient caller pc).clients other = state.clients other := by
  simp [State.setClient, different]

/-- The thread inside the locked scope is the one the mutex names. Everything else about the slot
rests on this: between a lock and its unlock nobody else writes. -/
structure Exclusive (state : State Client R T) : Prop where
  loop : state.loop.holds = true ↔ state.mutex = some .loop
  client : ∀ caller, (state.clients caller).holds = true ↔ state.mutex = some (.client caller)

theorem Exclusive.step {before after : State Client R T} {event : Event Client R O}
    (kept : Exclusive before) (taken : Step plan before event after) : Exclusive after := by
  obtain ⟨loop, client⟩ := kept
  cases taken with
  | head at_ | test at_ | check at_ =>
    refine ⟨?_, client⟩
    rw [← loop, at_]
    dsimp only
    split <;> rfl
  | spurious at_ => exact ⟨by rw [← loop, at_]; rfl, client⟩
  | take at_ => exact ⟨by rw [← loop, at_]; rfl, client⟩
  | @plan request outcome at_ =>
    refine ⟨?_, client⟩
    rw [← loop, at_]
    cases plan request.request outcome <;> rfl
  | handOff at_ => exact ⟨by rw [← loop, at_]; rfl, client⟩
  | lock at_ free | wake at_ free =>
    refine ⟨by simp [LoopPc.holds], fun caller => ?_⟩
    simpa [free] using client caller
  | block at_ | leave at_ =>
    have owned := loop.mp (by rw [at_]; rfl)
    refine ⟨by simp [LoopPc.holds], fun caller => ?_⟩
    simpa [owned] using client caller
  | @unlock request at_ =>
    have owned := loop.mp (by rw [at_]; rfl)
    refine ⟨by cases request <;> simp [LoopPc.holds], fun caller => ?_⟩
    simpa [owned] using client caller
  | callerLock caller request at_ free =>
    refine ⟨by simpa [free, State.setClient] using loop, fun other => ?_⟩
    by_cases same : other = caller
    · subst other; simp [ClientPc.holds]
    · have quiet := client other
      simpa [State.setClient, same, Ne.symm same, free] using quiet
  | callerStore caller at_ =>
    refine ⟨loop, fun other => ?_⟩
    by_cases same : other = caller
    · subst other
      simpa [ClientPc.holds, at_, State.setClient] using client caller
    · simpa [State.setClient, same] using client other
  | callerUnlock caller at_ =>
    have owned := (client caller).mp (by rw [at_]; rfl)
    refine ⟨by simpa [owned, State.setClient] using loop, fun other => ?_⟩
    by_cases same : other = caller
    · subst other; simp [ClientPc.holds]
    · have quiet := client other
      simpa [State.setClient, same, Ne.symm same, owned] using quiet
  | callerNotify caller at_ | callerReturn caller at_ =>
    refine ⟨by simpa [State.setClient] using loop, fun other => ?_⟩
    by_cases same : other = caller
    · subst other
      simpa [ClientPc.holds, at_, State.setClient] using client caller
    · simpa [State.setClient, same] using client other
  | exchange at_ => exact ⟨loop, client⟩
  | notifyAll at_ => exact ⟨by simpa using loop, client⟩
  | join at_ done => exact ⟨loop, client⟩

theorem exclusive (plan : R → O → Option T) :
    (system plan).Invariant fun state : State Client R T => Exclusive state where
  initial state start := by
    subst start
    exact ⟨by simp [initial, LoopPc.holds], fun caller => by simp [initial, ClientPc.holds]⟩
  step _ _ _ kept taken := kept.step taken

/-- The loop blocks only on an empty slot, and a request stored while it is blocked
leaves a notification outstanding. -/
structure Unseen (state : State Client R T) : Prop where
  window : state.loop = .window → state.pending = none
  blocked : state.loop = .blocked → state.pending ≠ none →
    ∃ caller, (state.clients caller).owes = true

private theorem owes_setClient {state : State Client R T} {caller : Client} {pc : ClientPc R}
    (kept : (state.clients caller).owes = true → pc.owes = true)
    (owed : ∃ other, (state.clients other).owes = true) :
    ∃ other, ((state.setClient caller pc).clients other).owes = true := by
  obtain ⟨other, owes⟩ := owed
  by_cases same : other = caller
  · subst other
    exact ⟨caller, by simpa using kept owes⟩
  · exact ⟨other, by rwa [state.setClient_other pc same]⟩

theorem Unseen.step {before after : State Client R T} {event : Event Client R O}
    (exclusive : Exclusive before) (kept : Unseen before) (taken : Step plan before event after) :
    Unseen after := by
  obtain ⟨window, blocked⟩ := kept
  cases taken with
  | head at_ | check at_ =>
    constructor <;> intro impossible <;> dsimp only at impossible <;> split at impossible <;> cases impossible
  | lock at_ free | wake at_ free | leave at_ | spurious at_ | handOff at_ =>
    constructor <;> intro impossible <;> cases impossible
  | test at_ =>
    constructor
    · intro waits
      dsimp only at waits ⊢
      split at waits
      · cases waits
      next predicate =>
        simp only [Bool.or_eq_true, Bool.not_eq_true', not_or] at predicate
        exact Option.not_isSome_iff_eq_none.mp predicate.2
    · intro impossible
      dsimp only at impossible
      split at impossible <;> cases impossible
  | block at_ => exact ⟨(by intro impossible; cases impossible), fun _ full => absurd (window at_) full⟩
  | take at_ => constructor <;> intro impossible <;> cases impossible
  | @unlock request at_ =>
    cases request <;> constructor <;> intro impossible <;> cases impossible
  | @plan request outcome at_ =>
    cases plan request.request outcome <;> constructor <;> intro impossible <;> cases impossible
  | callerLock caller request at_ free =>
    exact ⟨window, fun waits full => owes_setClient (by simp [at_, ClientPc.owes]) (blocked waits full)⟩
  | callerStore caller at_ =>
    have owned := (exclusive.client caller).mp (by rw [at_]; rfl)
    constructor
    · intro waits
      have holds := exclusive.loop.mp (by rw [show before.loop = .window from waits]; rfl)
      simp [owned] at holds
    · exact fun _ _ => ⟨caller, by simp [ClientPc.owes]⟩
  | callerUnlock caller at_ =>
    exact ⟨window, fun waits full => owes_setClient (by simp [ClientPc.owes]) (blocked waits full)⟩
  | callerNotify caller at_ =>
    exact ⟨fun waits => window (LoopPc.notified_window waits),
      fun waits => absurd waits (LoopPc.notified_ne_blocked _)⟩
  | callerReturn caller at_ =>
    exact ⟨window, fun waits full => owes_setClient (by simp [at_, ClientPc.owes]) (blocked waits full)⟩
  | exchange at_ | join at_ done => exact ⟨window, blocked⟩
  | notifyAll at_ =>
    exact ⟨fun waits => window (LoopPc.notified_window waits),
      fun waits => absurd waits (LoopPc.notified_ne_blocked _)⟩

theorem unseen (plan : R → O → Option T) :
    (system plan).Invariant fun state : State Client R T => Exclusive state ∧ Unseen state :=
  (exclusive plan).strengthen
    (by intro state start; subst start; constructor <;> intro impossible <;> cases impossible)
    (fun _ _ _ exclusive kept taken => kept.step exclusive taken)

@[simp] theorem stores_append (first last : List (Entry R T)) :
    stores (first ++ last) = stores first ++ stores last := List.filterMap_append

@[simp] theorem takes_append (first last : List (Entry R T)) :
    takes (first ++ last) = takes first ++ takes last := List.filterMap_append

@[simp] theorem handOffs_append (first last : List (Entry R T)) :
    handOffs (first ++ last) = handOffs first ++ handOffs last := List.filterMap_append

@[simp] theorem stores_singleton (entry : Entry R T) : stores [entry] = entry.stored?.toList := by
  cases entry <;> rfl

@[simp] theorem takes_singleton (entry : Entry R T) : takes [entry] = entry.taken?.toList := by
  cases entry <;> rfl

@[simp] theorem handOffs_singleton (entry : Entry R T) : handOffs [entry] = entry.handed?.toList := by
  cases entry <;> rfl

attribute [simp] Entry.stored? Entry.taken? Entry.handed?

theorem mem_stores {log : List (Entry R T)} {request : Ticket R} :
    request ∈ stores log ↔ .stored request ∈ log := by
  simp only [stores, List.mem_filterMap]
  constructor
  · intro ⟨entry, member, found⟩
    cases entry <;> simp only [Entry.stored?] at found <;> cases found
    exact member
  · exact fun member => ⟨_, member, rfl⟩

theorem mem_takes {log : List (Entry R T)} {request : Ticket R} :
    request ∈ takes log ↔ .taken request ∈ log := by
  simp only [takes, List.mem_filterMap]
  constructor
  · intro ⟨entry, member, found⟩
    cases entry <;> simp only [Entry.taken?] at found <;> cases found
    exact member
  · exact fun member => ⟨_, member, rfl⟩

/-- What each entry of the history says about the entries before it. -/
def Justified (before : List (Entry R T)) : Entry R T → Prop
  | .stored request => request.stamp = (stores before).length
  | .taken request => (stores before).getLast? = some request
  | .handed request _ => (takes before).getLast? = some request
  | .returned request => request ∈ stores before

structure Ledger (state : State Client R T) : Prop where
  justified : Throughout Justified state.log
  pending : ∀ request, state.pending = some request → (stores state.log).getLast? = some request
  carried : ∀ request, state.loop.carried = some request → (takes state.log).getLast? = some request
  stored : ∀ caller request, (state.clients caller).stored? = some request → request ∈ stores state.log
  taken : (takes state.log ++ state.pending.toList).Sublist (stores state.log)
  handed : (handOffs state.log ++ state.loop.carried.toList).Sublist (takes state.log)

omit [DecidableEq Client] in
private theorem Ledger.frame {before after : State Client R T} (kept : Ledger before)
    (log : after.log = before.log) (pending : after.pending = before.pending)
    (carried : after.loop.carried = before.loop.carried ∨ after.loop.carried = none)
    (stored : ∀ caller request, (after.clients caller).stored? = some request →
      (before.clients caller).stored? = some request) : Ledger after where
  justified := log ▸ kept.justified
  pending request full := by rw [log]; exact kept.pending request (pending ▸ full)
  carried request held := by
    rw [log]
    rcases carried with same | none
    · exact kept.carried request (same ▸ held)
    · rw [none] at held; cases held
  stored caller request held := by rw [log]; exact kept.stored caller request (stored caller request held)
  taken := by rw [log, pending]; exact kept.taken
  handed := by
    rw [log]
    rcases carried with same | none
    · rw [same]; exact kept.handed
    · rw [none, Option.toList_none, List.append_nil]
      exact (List.sublist_append_left _ _).trans kept.handed

private theorem stored_setClient {state : State Client R T} {caller : Client} {pc : ClientPc R}
    (quiet : ∀ request, pc.stored? = some request → (state.clients caller).stored? = some request)
    (other : Client) (request : Ticket R)
    (held : ((state.setClient caller pc).clients other).stored? = some request) :
    (state.clients other).stored? = some request := by
  by_cases same : other = caller
  · subst other
    exact quiet request (by simpa using held)
  · rwa [state.setClient_other pc same] at held

/-! The four steps that write the history, one for each kind of entry. -/

omit [DecidableEq Client] in
private theorem Ledger.takes_pending {state : State Client R T} {request : Ticket R} (kept : Ledger state)
    (full : state.pending = some request) :
    Ledger { state with loop := .unlock (some request), pending := none, log := state.log ++ [.taken request] } := by
  have latest := kept.pending request full
  have ordered := kept.taken
  have idle := (List.sublist_append_left _ _).trans kept.handed
  rw [full, Option.toList_some] at ordered
  refine ⟨kept.justified.snoc latest, (fun _ impossible => by cases impossible), ?_, ?_, ?_, ?_⟩
  · intro other held
    simpa [LoopPc.carried] using held
  · intro caller other held
    simpa using kept.stored caller other held
  · simpa using ordered
  · simpa [LoopPc.carried] using idle

omit [DecidableEq Client] in
private theorem Ledger.hands_off {state : State Client R T} {request : Ticket R} (kept : Ledger state)
    (carried : state.loop.carried = some request) (trajectory : T) :
    Ledger { state with loop := .head, log := state.log ++ [.handed request trajectory] } := by
  have latest := kept.carried request carried
  have ordered := kept.handed
  rw [carried, Option.toList_some] at ordered
  refine ⟨kept.justified.snoc latest, ?_, (fun _ impossible => by cases impossible), ?_, ?_, ?_⟩
  · intro other full
    simpa using kept.pending other full
  · intro caller other held
    simpa using kept.stored caller other held
  · simpa using kept.taken
  · simpa [LoopPc.carried] using ordered

private theorem Ledger.stores_request {state : State Client R T} (kept : Ledger state) (caller : Client)
    {request : Ticket R} (stamp : request.stamp = (stores state.log).length) :
    Ledger { state.setClient caller (.unlock request) with
      pending := some request
      log := state.log ++ [.stored request] } := by
  refine ⟨kept.justified.snoc stamp, ?_, ?_, ?_, ?_, ?_⟩
  · intro other full
    cases full
    simp
  · intro other held
    simpa using kept.carried other held
  · intro other held stored
    simp only [stores_append, stores_singleton, Entry.stored?, Option.toList_some, List.mem_append, List.mem_singleton]
    by_cases same : other = caller
    · subst other
      exact Or.inr (by simpa [State.setClient, ClientPc.stored?, eq_comm] using stored)
    · exact Or.inl (kept.stored other held (by simpa [State.setClient, same] using stored))
  · have ordered := (List.sublist_append_left _ _).trans kept.taken
    simpa using ordered.append (List.Sublist.refl [request])
  · simpa [State.setClient] using kept.handed

private theorem Ledger.returns {state : State Client R T} (kept : Ledger state) (caller : Client) {request : Ticket R}
    (known : request ∈ stores state.log) :
    Ledger { state.setClient caller .idle with log := state.log ++ [.returned request] } := by
  refine ⟨kept.justified.snoc known, ?_, ?_, ?_, ?_, ?_⟩
  · intro other full
    simpa using kept.pending other full
  · intro other held
    simpa using kept.carried other held
  · intro other held stored
    simpa using kept.stored other held (stored_setClient (by simp [ClientPc.stored?]) other held stored)
  · simpa [State.setClient] using kept.taken
  · simpa [State.setClient] using kept.handed

theorem Ledger.step {before after : State Client R T} {event : Event Client R O}
    (kept : Ledger before) (taken : Step plan before event after) : Ledger after := by
  cases taken with
  | head at_ | test at_ | check at_ =>
    refine kept.frame rfl rfl (Or.inr ?_) (fun _ _ held => held)
    dsimp only
    split <;> rfl
  | lock at_ free | wake at_ free | block at_ | leave at_ | spurious at_ =>
    exact kept.frame rfl rfl (Or.inr rfl) (fun _ _ held => held)
  | take at_ =>
    cases full : before.pending with
    | none => exact kept.frame (by simp) (by rw [full]) (Or.inr rfl) (fun _ _ held => held)
    | some request => exact kept.takes_pending full
  | @unlock request at_ =>
    refine kept.frame rfl rfl (Or.inl ?_) (fun _ _ held => held)
    rw [at_]
    cases request <;> rfl
  | @plan request outcome at_ =>
    refine kept.frame rfl rfl ?_ (fun _ _ held => held)
    rw [at_]
    cases plan request.request outcome
    · exact Or.inr rfl
    · exact Or.inl rfl
  | handOff at_ => exact kept.hands_off (by rw [at_]; rfl) _
  | callerLock caller request at_ free =>
    exact kept.frame rfl rfl (Or.inl rfl)
      (stored_setClient (by simp [ClientPc.stored?]))
  | callerStore caller at_ => exact kept.stores_request caller rfl
  | callerUnlock caller at_ =>
    exact kept.frame rfl rfl (Or.inl rfl)
      (stored_setClient (by simp [at_, ClientPc.stored?]))
  | callerNotify caller at_ =>
    exact kept.frame rfl rfl (Or.inl (by simp))
      (stored_setClient (by simp [at_, ClientPc.stored?]))
  | @callerReturn request caller at_ => exact kept.returns caller (kept.stored caller request (by rw [at_]; rfl))
  | exchange at_ | join at_ done => exact kept.frame rfl rfl (Or.inl rfl) (fun _ _ held => held)
  | notifyAll at_ => exact kept.frame rfl rfl (Or.inl (by simp)) (fun _ _ held => held)

theorem ledger (plan : R → O → Option T) :
    (system plan).Invariant fun state : State Client R T => Ledger state where
  initial state start := by
    subst start
    refine ⟨.nil, ?_, ?_, ?_, ?_, ?_⟩ <;> simp [initial, LoopPc.carried, ClientPc.stored?, takes, handOffs]
  step _ _ _ kept taken := kept.step taken

theorem stamps {log : List (Entry R T)} (justified : Throughout Justified log) :
    (stores log).map Ticket.stamp = List.range (stores log).length := by
  induction log using List.reverseRecOn with
  | nil => rfl
  | append_singleton log entry ih =>
    have earlier := ih justified.initial
    cases entry with
    | stored request =>
      have stamp : request.stamp = (stores log).length := justified log _ [] rfl
      simp [earlier, stamp, List.range_succ]
    | taken _ | handed _ _ | returned _ => simpa using earlier

theorem stores_increasing {log : List (Entry R T)} (justified : Throughout Justified log) :
    (stores log).Pairwise fun earlier later => earlier.stamp < later.stamp := by
  have counted : ((stores log).map Ticket.stamp).Pairwise (· < ·) := by
    rw [stamps justified]
    exact List.pairwise_lt_range
  exact List.pairwise_map.mp counted

/-- The slot loses nothing but superseded requests: takes follow lock order, each
returns the latest store, hand-offs follow takes, and a loop that sleeps on a full
slot is still owed a notification. -/
theorem mailbox_ordered {state : State Client R T} (reached : (system plan).Reachable state) :
    (stores state.log).Pairwise (fun earlier later => earlier.stamp < later.stamp) ∧
    (takes state.log).Sublist (stores state.log) ∧
    (takes state.log).Pairwise (fun earlier later => earlier.stamp < later.stamp) ∧
    (takes state.log).Nodup ∧
    (∀ before request after, state.log = before ++ .taken request :: after →
      (stores before).getLast? = some request) ∧
    (handOffs state.log).Sublist (takes state.log) ∧
    (state.loop = .blocked → state.running = true → state.pending ≠ none →
      ∃ caller request, state.clients caller = .unlock request ∨ state.clients caller = .notify request) := by
  have kept := (ledger plan).reachable reached
  have slot := ((unseen plan).reachable reached).2
  have increasing := stores_increasing kept.justified
  have subsequence := (List.sublist_append_left _ _).trans kept.taken
  have ordered := increasing.sublist subsequence
  refine ⟨increasing, subsequence, ordered, ?_, ?_, (List.sublist_append_left _ _).trans kept.handed, ?_⟩
  · exact ordered.imp fun {earlier later} before same => by subst same; exact Nat.lt_irrefl _ before
  · exact fun before request after same => kept.justified before _ after same
  · intro waits _ full
    obtain ⟨caller, owes⟩ := slot.blocked waits full
    cases at_ : state.clients caller with
    | unlock request => exact ⟨caller, request, Or.inl at_⟩
    | notify request => exact ⟨caller, request, Or.inr at_⟩
    | idle | store _ | returning _ => rw [at_] at owes; cases owes

theorem mailbox_ordered_blocked :
    ∃ state : State Unit Nat Nat, state.loop = .blocked ∧ state.pending = some ⟨0, 7⟩ ∧
      ∃ caller request, state.clients caller = .unlock request ∨ state.clients caller = .notify request := by
  have run : (system fun request (_ : Unit) => some request).Run (initial : State Unit Nat Nat)
      [.head, .lock, .test, .block, .callerLock () 7, .callerStore ()] _ :=
    .head (.head rfl) <| .head (.lock rfl rfl) <| .head (.test rfl) <| .head (.block rfl) <|
      .head (.callerLock () 7 rfl rfl) <| .head (.callerStore () rfl) <| .refl _
  exact ⟨_, rfl, rfl, (mailbox_ordered ⟨initial, _, rfl, run⟩).2.2.2.2.2.2 rfl rfl nofun⟩

end RoboticsRt.Planner

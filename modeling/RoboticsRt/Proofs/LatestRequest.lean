import RoboticsRt.Proofs.Mailbox

/-! Whether the latest request wins. The loop never looks at the slot between taking
a request and invoking the callback, so a call that stores and returns in that window
does not stop the older trajectory; every other superseded request is never handed over. -/

namespace RoboticsRt.Planner
open Transition History

variable {Client R O T : Type}

/-- Once a call has returned, no trajectory for an earlier request reaches the callback. -/
def LatestWins (log : List (Entry R T)) : Prop :=
  ∀ before request trajectory after, log = before ++ .handed request trajectory :: after →
    ∀ later, .returned later ∈ before → later.stamp ≤ request.stamp

/-- No call stores its request and returns between a take and the hand-off it leads to. -/
def Undisturbed (log : List (Entry R T)) : Prop :=
  ∀ before request between trajectory after,
    log = before ++ .taken request :: (between ++ .handed request trajectory :: after) →
    ∀ later, .stored later ∈ between → .returned later ∉ between

private theorem stored_before_take {before : List (Entry R T)} {request later : Ticket R}
    (justified : Throughout Justified before) (latest : (stores before).getLast? = some request)
    (stored : later ∈ stores before) : later.stamp ≤ request.stamp := by
  obtain ⟨earlier, same⟩ := List.getLast?_eq_some_iff.mp latest
  have increasing := stores_increasing justified
  rw [same] at stored increasing
  rcases List.mem_append.mp stored with old | last
  · have smaller := (List.pairwise_append.mp increasing).2.2 later old request (by simp)
    exact Nat.le_of_lt smaller
  · exact Nat.le_of_eq (congrArg Ticket.stamp (List.mem_singleton.mp last))

private theorem stored_after_take {before after : List (Entry R T)} {request later : Ticket R}
    (justified : Throughout Justified (before ++ .taken request :: after))
    (stored : .stored later ∈ after) : request.stamp < later.stamp := by
  have latest : (stores before).getLast? = some request := justified before _ after rfl
  have known : request ∈ stores before := List.mem_of_getLast? latest
  have increasing := stores_increasing justified
  rw [stores_append] at increasing
  have newer : later ∈ stores (.taken request :: after) := mem_stores.mpr (List.mem_cons_of_mem _ stored)
  exact (List.pairwise_append.mp increasing).2.2 request known later newer

private theorem returned_stored {log : List (Entry R T)} {request : Ticket R}
    (justified : Throughout Justified log) (returned : .returned request ∈ log) : request ∈ stores log := by
  obtain ⟨before, after, same, known⟩ := justified.split returned
  rw [same, stores_append]
  exact List.mem_append_left _ known

theorem Undisturbed.latest_wins {log : List (Entry R T)} (justified : Throughout Justified log)
    (undisturbed : Undisturbed log) : LatestWins log := by
  intro before request trajectory after same later returned
  by_contra newer
  have newer : request.stamp < later.stamp := Nat.lt_of_not_le newer
  subst same
  have prior : Throughout Justified before := justified.initial
  have latest : (takes before).getLast? = some request := justified before _ after rfl
  have taken : .taken request ∈ before := mem_takes.mp (List.mem_of_getLast? latest)
  obtain ⟨first, between, rfl, current⟩ := prior.split taken
  have early : Throughout Justified first := prior.initial
  -- A store before the take would not be newer than the request taken.
  have absent : later ∉ stores first := fun stored =>
    Nat.not_le_of_lt newer (stored_before_take early current stored)
  have inside : .stored later ∈ between := by
    have known := mem_stores.mp (returned_stored prior returned)
    rcases List.mem_append.mp known with old | rest
    · exact absurd (mem_stores.mpr old) absent
    · exact (List.mem_cons.mp rest).resolve_left nofun
  have back : .returned later ∈ between := by
    rcases List.mem_append.mp returned with old | rest
    · exact absurd (returned_stored early old) absent
    · exact (List.mem_cons.mp rest).resolve_left nofun
  exact undisturbed first request between trajectory after (by simp) later inside back

theorem LatestWins.undisturbed {log : List (Entry R T)} (justified : Throughout Justified log)
    (wins : LatestWins log) : Undisturbed log := by
  intro before request between trajectory after same later stored returned
  subst same
  have newer := stored_after_take justified (List.mem_append_left _ stored)
  have older := wins (before ++ .taken request :: between) request trajectory after (by simp) later
    (List.mem_append_right _ (List.mem_cons_of_mem _ returned))
  exact Nat.not_le_of_lt newer older

variable [DecidableEq Client] {plan : R → O → Option T}

/-- Between the take and the hand-off the loop does not look at the slot again, so a call that
stores and returns there comes second. It is the only way: a request taken is the latest of those
stored. -/
theorem latest_wins_iff {state : State Client R T} (reached : (system plan).Reachable state) :
    LatestWins state.log ↔ Undisturbed state.log := by
  have justified := ((ledger plan).reachable reached).justified
  exact ⟨fun wins => wins.undisturbed justified, fun undisturbed => undisturbed.latest_wins justified⟩

/-- One client requests 7, waits until the loop has taken it, and requests 9. -/
private theorem overtaken :
    ∃ state : State Unit Nat Nat, (system fun request (_ : Unit) => some request).Reachable state ∧
      state.log = [.stored ⟨0, 7⟩, .returned ⟨0, 7⟩, .taken ⟨0, 7⟩, .stored ⟨1, 9⟩, .returned ⟨1, 9⟩,
        .handed ⟨0, 7⟩ 7] := by
  have run : (system fun request (_ : Unit) => some request).Run (initial : State Unit Nat Nat)
      [.head, .lock, .test, .block, .callerLock () 7, .callerStore (), .callerUnlock (), .callerNotify (),
        .callerReturn (), .wake, .test, .check, .take, .unlock, .callerLock () 9, .callerStore (),
        .callerUnlock (), .callerNotify (), .callerReturn (), .plan (), .handOff] _ :=
    .head (.head rfl) <| .head (.lock rfl rfl) <| .head (.test rfl) <| .head (.block rfl) <|
      .head (.callerLock () 7 rfl rfl) <| .head (.callerStore () rfl) <| .head (.callerUnlock () rfl) <|
      .head (.callerNotify () rfl) <| .head (.callerReturn () rfl) <| .head (.wake rfl rfl) <|
      .head (.test rfl) <| .head (.check rfl) <| .head (.take rfl) <| .head (.unlock rfl) <|
      .head (.callerLock () 9 rfl rfl) <| .head (.callerStore () rfl) <| .head (.callerUnlock () rfl) <|
      .head (.callerNotify () rfl) <| .head (.callerReturn () rfl) <| .head (.plan () rfl) <|
      .head (.handOff rfl) <| .refl _
  exact ⟨_, ⟨initial, _, rfl, run⟩, rfl⟩

theorem latest_wins_overtaken :
    ∃ state : State Unit Nat Nat, (system fun request (_ : Unit) => some request).Reachable state ∧
      ¬ LatestWins state.log := by
  obtain ⟨state, reached, log⟩ := overtaken
  refine ⟨state, reached, fun wins => ?_⟩
  have older := wins [.stored ⟨0, 7⟩, .returned ⟨0, 7⟩, .taken ⟨0, 7⟩, .stored ⟨1, 9⟩, .returned ⟨1, 9⟩]
    ⟨0, 7⟩ 7 [] log ⟨1, 9⟩ (by simp)
  simp at older

theorem latest_wins_iff_overtaken :
    ∃ state : State Unit Nat Nat, .handed ⟨0, 7⟩ 7 ∈ state.log ∧
      (LatestWins state.log ↔ Undisturbed state.log) := by
  obtain ⟨state, reached, log⟩ := overtaken
  exact ⟨state, by simp [log], latest_wins_iff reached⟩

end RoboticsRt.Planner

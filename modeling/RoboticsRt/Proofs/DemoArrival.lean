import RoboticsRt.Proofs.DemoRuns
import RoboticsRt.Proofs.GoalReached

/-! The end of the demo's runs: after the planner has stopped, the executor comes to the goal of
the newest request that was answered, and stays there. -/

namespace RoboticsRt.PandaDemo
open Transition

variable {Client R O K : Type} [Field K] [LinearOrder K] [DecidableEq Client] {plan : R → O → Option (Trajectory K)}
  [IsStrictOrderedRing K] [FloorSemiring K]

/-- The executor is where the pointers its iterations read have brought it. -/
structure Follows (state : State Client R K) : Prop where
  tracks : RtExecutor.Tracks state.heap ⟨state.executor.activeTraj, (state.iterations.map Prod.fst).reverse⟩ state.executor
  launched : state.rtLoop = .prologue → state.iterations = []

omit [IsStrictOrderedRing K] in
theorem tracks_grow {heap heap' : Nat → Trajectory K} {seen : RtExecutor.Seen Nat} {executor : RtExecutor Nat K}
    (tracks : RtExecutor.Tracks heap seen executor) (same : ∀ ref, some ref ∈ seen.reads → heap' ref = heap ref) :
    RtExecutor.Tracks heap' seen executor := by
  refine { tracks with playing := fun ref rest reads => ?_ }
  rw [same ref (reads ▸ .head _)]
  exact tracks.playing ref rest reads

theorem Follows.step {before after : State Client R K} {event : Event Client R O} (plays : Plays before)
    (follows : Follows before) (taken : Step plan before event after) : Follows after := by
  cases taken with
  | planner taken other => exact { follows with }
  | @handOff after request trajectory at_ taken =>
    refine ⟨?_, follows.launched⟩
    have same : ∀ ref, some ref ∈ (before.iterations.map Prod.fst).reverse →
        (before.trajectories ++ [trajectory]).getD ref .empty = before.heap ref := by
      intro ref read
      obtain ⟨entry, member, pointer⟩ := List.mem_map.mp (List.mem_reverse.mp read)
      have past := plays.past entry member
      rw [pointer] at past
      exact List.getD_append _ _ _ _ past
    exact (tracks_grow follows.tracks same).step (.setTrajectory (some before.trajectories.length))
  | prologue nowNs at_ =>
    refine ⟨?_, nofun⟩
    have started := follows.tracks.step (.start nowNs)
    dsimp only
    rw [follows.launched at_] at started ⊢
    exact started
  | head at_ =>
    refine ⟨follows.tracks, fun prologue => ?_⟩
    dsimp only at prologue
    split at prologue <;> cases prologue
  | iteration at_ =>
    refine ⟨?_, nofun⟩
    have read := follows.tracks.step .iteration
    rw [List.map_append, List.reverse_append]
    have kept := (RtExecutor.iteration_pointers before.heap before.executor).1
    dsimp only
    rw [kept]
    exact read
  | exchange stopped => exact { follows with }

theorem follows (plan : R → O → Option (Trajectory K)) :
    (system plan).Invariant fun state : State Client R K => Plays state ∧ Follows state := by
  refine (plays plan).strengthen ?_ fun _ _ _ plays follows taken => follows.step plays taken
  rintro state rfl
  exact ⟨RtExecutor.tracks_run (initial : State Client R K).heap [], fun _ => rfl⟩

omit [DecidableEq Client] in
theorem Follows.arrives {state : State Client R K} (follows : Follows state) {ref ms : Nat}
    (active : state.executor.activeTraj = some ref) (playable : RtExecutor.Playable (state.heap ref))
    (whole : (state.heap ref).durationS = RtExecutor.tick * ms) {first more : List (Option Nat × List (K × List K))}
    (grown : state.iterations = first ++ more) (reads : ∀ entry ∈ more, entry.1 = some ref) (enough : ms ≤ more.length) :
    ∃ t, (state.executor.performLoopIteration state.heap).2.onTick =
      [(t, (state.heap ref).eval (state.heap ref).durationS)] := by
  have last : RtExecutor.lastTick (state.heap ref) = ms := by
    rw [RtExecutor.lastTick, whole, mul_div_cancel_left₀ _ RtExecutor.tick_pos.ne', Nat.floor_natCast]
  obtain ⟨emitted, _⟩ := follows.tracks.plays active playable
  have old : ms ≤ (RtExecutor.Seen.mk state.executor.activeTraj (state.iterations.map Prod.fst).reverse).age := by
    rw [RtExecutor.Seen.age, active, grown, List.map_append, List.reverse_append, List.takeWhile_append_of_pos]
    · simp only [List.length_append, List.length_reverse, List.length_map]
      omega
    · intro pointer member
      obtain ⟨entry, listed, rfl⟩ := List.mem_map.mp (List.mem_reverse.mp member)
      exact decide_eq_true (reads entry listed)
  rw [last, min_eq_right old, ← whole] at emitted
  exact ⟨_, emitted⟩

variable {Frame : Type}

end RoboticsRt.PandaDemo

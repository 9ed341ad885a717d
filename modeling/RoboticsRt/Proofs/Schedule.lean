import RoboticsRt.Proofs.Playback

/-! The control ticks against the clock. The deadlines form an arithmetic sequence however
the sleeps went, but an interrupted sleep is not resumed, so what keeps an iteration from
starting early is that the sleep before it completed. -/

namespace RoboticsRt.RtExecutor

variable {Ref K : Type} [Field K] [LinearOrder K] [DecidableEq Ref]
variable {heap : Ref → Trajectory K} {state : RtExecutor Ref K} {now : Nat} {laps : List Lap}

/-- Iteration `k ≥ 1` starts no earlier than `k` ms after `t0`, and its own deadline is
exactly `k + 1` ms after it. -/
def OnSchedule (t0 : Nat) (laps : List Lap) : Prop :=
  ∀ k lap, 1 ≤ k → laps[k]? = some lap →
    t0 + k * 1000000 ≤ lap.started ∧ lap.deadline.instant = t0 + (k + 1) * 1000000

def sleepsOf (laps : List Lap) : List (SleepResult × Nat) := laps.map fun lap => (lap.ret, lap.woke)

theorem nowNs_toNat (now : Timespec) : now.nowNs.toNat = now.instant % 2 ^ 64 := by
  simp only [Timespec.nowNs, Timespec.instant, UInt64.toNat_add, UInt64.toNat_mul, UInt64.reduceToNat]
  omega

/-! What an iteration does with `next_tick_ns`. -/

omit [DecidableEq Ref] in
theorem evaluate_nextTick (heap : Ref → Trajectory K) (loaded : RtExecutor Ref K) :
    (loaded.evaluate heap).1.nextTickNs = loaded.nextTickNs := by
  rw [evaluate]
  split
  · rfl
  · split <;> rfl

omit [DecidableEq Ref] in
theorem advance_nextTick (heap : Ref → Trajectory K) (evaluated : RtExecutor Ref K) :
    (evaluated.advance heap).nextTickNs = evaluated.nextTickNs := by
  rw [advance]
  split <;> rfl

omit [LinearOrder K] in
theorem loadTrajectory_nextTick (state : RtExecutor Ref K) : state.loadTrajectory.nextTickNs = state.nextTickNs := by
  rw [loadTrajectory]
  split <;> rfl

theorem iteration_nextTick (heap : Ref → Trajectory K) (state : RtExecutor Ref K) :
    (state.performLoopIteration heap).1.nextTickNs = state.nextTickNs + tickPeriodNs := by
  dsimp only [performLoopIteration]
  rw [advance_nextTick, evaluate_nextTick, loadTrajectory_nextTick]

theorem iteration_sleepUntil (heap : Ref → Trajectory K) (state : RtExecutor Ref K) :
    (state.performLoopIteration heap).2.sleepUntil = ⟨state.nextTickNs / 1000000000, state.nextTickNs % 1000000000⟩ := by
  dsimp only [performLoopIteration]
  rw [advance_nextTick, evaluate_nextTick, loadTrajectory_nextTick]

theorem iteration_deadline (heap : Ref → Trajectory K) (state : RtExecutor Ref K) :
    (state.performLoopIteration heap).2.sleepUntil.instant = state.nextTickNs.toNat := by
  rw [iteration_sleepUntil, Timespec.instant, UInt64.toNat_div, UInt64.toNat_mod]
  exact Nat.div_add_mod' _ _

/-! What a run of the loop keeps, whatever its sleeps return. -/

theorem Laps.deadline (run : Laps heap state now laps) {k : Nat} {lap : Lap} (found : laps[k]? = some lap) :
    lap.deadline.instant = (state.nextTickNs.toNat + k * 1000000) % 2 ^ 64 := by
  induction run generalizing k with
  | stop => cases found
  | setTrajectory _ _ ih => exact ih found
  | @iteration state _ _ _ _ _ _ _ rest ih =>
    cases k with
    | zero =>
      obtain rfl := Option.some.inj found
      rw [iteration_deadline, Nat.zero_mul, Nat.add_zero, Nat.mod_eq_of_lt state.nextTickNs.toNat_lt]
    | succ k =>
      have period : tickPeriodNs.toNat = 1000000 := rfl
      rw [ih found, iteration_nextTick, UInt64.toNat_add, period]
      omega

theorem Laps.sleeps (run : Laps heap state now laps) {k : Nat} {lap : Lap} (found : laps[k]? = some lap) :
    Sleeps lap.deadline lap.started lap.ret lap.woke := by
  induction run generalizing k with
  | stop => cases found
  | setTrajectory _ _ ih => exact ih found
  | iteration _ slept _ ih =>
    cases k with
    | zero => obtain rfl := Option.some.inj found; exact slept
    | succ k => exact ih found

theorem Laps.first (run : Laps heap state now laps) {lap : Lap} (found : laps[0]? = some lap) : now ≤ lap.started := by
  induction run with
  | stop => cases found
  | setTrajectory _ _ ih => exact ih found
  | iteration monotone => obtain rfl := Option.some.inj found; exact monotone

theorem Laps.follows (run : Laps heap state now laps) {k : Nat} {before lap : Lap} (earlier : laps[k]? = some before)
    (found : laps[k + 1]? = some lap) : before.woke ≤ lap.started := by
  induction run generalizing k with
  | stop => cases found
  | setTrajectory _ _ ih => exact ih earlier found
  | iteration _ _ rest ih =>
    cases k with
    | zero => obtain rfl := Option.some.inj earlier; exact rest.first found
    | succ k => exact ih earlier found

theorem Laps.deadline_exact {now : Timespec} (run : Laps heap (state.rtLoopStart now.nowNs) now.instant laps) {k : Nat}
    {lap : Lap} (found : laps[k]? = some lap) (fits : now.instant + (k + 1) * 1000000 < 2 ^ 64) :
    lap.deadline.instant = now.instant + (k + 1) * 1000000 := by
  have period : tickPeriodNs.toNat = 1000000 := rfl
  rw [run.deadline found, rtLoopStart, UInt64.toNat_add, nowNs_toNat, period]
  omega

theorem Laps.deadline_le {now : Timespec} (run : Laps heap (state.rtLoopStart now.nowNs) now.instant laps) {k : Nat}
    {lap : Lap} (found : laps[k]? = some lap) : lap.deadline.instant ≤ now.instant + (k + 1) * 1000000 := by
  have period : tickPeriodNs.toNat = 1000000 := rfl
  rw [run.deadline found, rtLoopStart, UInt64.toNat_add, nowNs_toNat, period]
  omega

/-! The same sleeps with every iteration starting as soon as the one before it is over. -/

def eager : Nat → List Lap → List Lap
  | _, [] => []
  | now, lap :: rest => { lap with started := now } :: eager lap.woke rest

theorem Laps.eager (run : Laps heap state now laps) : Laps heap state now (eager now laps) := by
  induction run with
  | stop state now => exact .stop state now
  | setTrajectory traj _ ih => exact .setTrajectory traj ih
  | iteration monotone slept _ ih => exact .iteration le_rfl ⟨monotone.trans slept.1, slept.2⟩ ih

theorem sleepsOf_eager (now : Nat) (laps : List Lap) : sleepsOf (RtExecutor.eager now laps) = sleepsOf laps := by
  induction laps generalizing now with
  | nil => rfl
  | cons lap rest ih =>
    rw [RtExecutor.eager, sleepsOf, List.map_cons, ← sleepsOf, ih lap.woke, sleepsOf, sleepsOf, List.map_cons]

theorem eager_follows (now : Nat) {laps : List Lap} {k : Nat} {before lap : Lap} (earlier : laps[k]? = some before)
    (found : laps[k + 1]? = some lap) : (RtExecutor.eager now laps)[k + 1]? = some { lap with started := before.woke } := by
  induction laps generalizing now k with
  | nil => cases earlier
  | cons head rest ih =>
    cases k with
    | zero =>
      obtain rfl := Option.some.inj earlier
      cases rest with
      | nil => cases found
      | cons next rest => obtain rfl := Option.some.inj found; rfl
    | succ k => exact ih head.woke earlier found

theorem sleepsOf_length {laps others : List Lap} (same : sleepsOf others = sleepsOf laps) : others.length = laps.length := by
  have lengths := congrArg List.length same
  rwa [sleepsOf, sleepsOf, List.length_map, List.length_map] at lengths

theorem sleepsOf_ret {laps others : List Lap} (same : sleepsOf others = sleepsOf laps) {k : Nat} {lap other : Lap}
    (found : laps[k]? = some lap) (found' : others[k]? = some other) : other.ret = lap.ret := by
  have entries := congrArg (fun sleeps => sleeps[k]?) same
  simp only [sleepsOf, List.getElem?_map, found, found', Option.map_some, Option.some.injEq, Prod.mk.injEq] at entries
  exact entries.1

theorem Laps.on_schedule {now : Timespec} (run : Laps heap (state.rtLoopStart now.nowNs) now.instant laps)
    (completed : ∀ k lap, laps[k]? = some lap → k + 1 < laps.length → lap.ret = .zero)
    (fits : 2 ≤ laps.length → now.instant + laps.length * 1000000 < 2 ^ 64) : OnSchedule now.instant laps := by
  intro k lap later found
  have inside : k < laps.length := (List.getElem?_eq_some_iff.mp found).1
  have room (i : Nat) (within : i < laps.length) : now.instant + (i + 1) * 1000000 < 2 ^ 64 := by
    calc now.instant + (i + 1) * 1000000
      _ ≤ now.instant + laps.length * 1000000 := Nat.add_le_add_left (Nat.mul_le_mul_right _ within) _
      _ < 2 ^ 64 := fits (by omega)
  refine ⟨?_, run.deadline_exact found (room k inside)⟩
  obtain ⟨k, rfl⟩ : ∃ before, k = before + 1 := ⟨k - 1, by omega⟩
  have earlier := List.getElem?_eq_getElem (Nat.lt_of_succ_lt inside)
  have slept := (run.sleeps earlier).2
  rw [completed k _ earlier inside] at slept
  calc now.instant + (k + 1) * 1000000
    _ = (laps[k]).deadline.instant := (run.deadline_exact earlier (room k (Nat.lt_of_succ_lt inside))).symm
    _ ≤ (laps[k]).woke := slept
    _ ≤ lap.started := run.follows earlier found

/-- An interrupted sleep ends the iteration while the deadline still counts as slept through, so
the next one starts early. Nothing else lets an iteration run ahead as long as the deadlines fit
the clock. -/
theorem on_schedule_iff {now : Timespec} (run : Laps heap (state.rtLoopStart now.nowNs) now.instant laps) :
    (∀ others, Laps heap (state.rtLoopStart now.nowNs) now.instant others → sleepsOf others = sleepsOf laps →
      OnSchedule now.instant others) ↔
    (∀ k lap, laps[k]? = some lap → k + 1 < laps.length → lap.ret = .zero) ∧
      (2 ≤ laps.length → now.instant + laps.length * 1000000 < 2 ^ 64) := by
  constructor
  · intro scheduled
    refine ⟨?_, ?_⟩
    · -- an interrupted sleep lets the next iteration start at once
      intro k lap found inside
      have next := List.getElem?_eq_getElem inside
      have start := (scheduled _ run.eager (sleepsOf_eager _ _) (k + 1) _ (by omega) (eager_follows _ found next)).1
      have slept := (run.sleeps found).2
      cases returned : lap.ret with
      | zero => rfl
      | eintr =>
        have deadline : lap.deadline.instant ≤ now.instant + (k + 1) * 1000000 := run.deadline_le found
        rw [returned] at slept
        dsimp only at slept start
        omega
    · intro several
      obtain ⟨last, count⟩ : ∃ last, laps.length = last + 1 := ⟨laps.length - 1, by omega⟩
      have found := List.getElem?_eq_getElem (count ▸ Nat.lt_succ_self last : last < laps.length)
      have due := (scheduled laps run rfl last _ (by omega) found).2
      have wrapped := run.deadline found
      omega
  · rintro ⟨completed, fits⟩ others run' same
    have count := sleepsOf_length same
    apply run'.on_schedule
    · intro k other found inside
      have earlier := List.getElem?_eq_getElem (show k < laps.length by omega)
      rw [sleepsOf_ret same earlier found]
      exact completed k _ earlier (by omega)
    · rw [count]
      exact fits

theorem ramp_laps (ret : SleepResult) (woke : Nat) (slept : Sleeps ⟨0, 1000000⟩ 0 ret woke) (early : woke ≤ 2000000) :
    Laps (ramp 1) (rtLoopStart initial (Timespec.nowNs ⟨0, 0⟩)) (Timespec.instant ⟨0, 0⟩)
      [⟨0, ⟨0, 1000000⟩, ret, woke⟩, ⟨woke, ⟨0, 2000000⟩, .zero, 2000000⟩] := by
  let state : RtExecutor Unit ℚ := (rtLoopStart initial (Timespec.nowNs ⟨0, 0⟩)).setTrajectory (some ())
  have start : state.nextTickNs = 1000000 := by decide
  have first : (state.performLoopIteration (ramp 1)).2.sleepUntil = ⟨0, 1000000⟩ := by
    rw [iteration_sleepUntil, start]
    simp only [UInt64.reduceDiv, UInt64.reduceMod]
  have second : ((state.performLoopIteration (ramp 1)).1.performLoopIteration (ramp 1)).2.sleepUntil = ⟨0, 2000000⟩ := by
    rw [iteration_sleepUntil, iteration_nextTick, start, tickPeriodNs]
    simp only [UInt64.reduceAdd, UInt64.reduceDiv, UInt64.reduceMod]
  apply Laps.setTrajectory (some ())
  rw [← first] at slept ⊢
  rw [← second]
  apply Laps.iteration le_rfl slept
  apply Laps.iteration le_rfl _ (.stop _ _)
  rw [second]
  exact ⟨early, le_rfl⟩

theorem on_schedule_ramp :
    OnSchedule 0 [⟨0, ⟨0, 1000000⟩, .zero, 1000001⟩, ⟨1000001, ⟨0, 2000000⟩, .zero, 2000000⟩] := by
  have run := ramp_laps .zero 1000001 ⟨by decide, by decide⟩ (by decide)
  refine (on_schedule_iff run).mpr ⟨?_, ?_⟩ _ run rfl
  · intro k lap found inside
    obtain rfl : k = 0 := by rw [List.length_cons, List.length_cons, List.length_nil] at inside; omega
    obtain rfl := Option.some.inj found
    rfl
  · intro
    decide

/-- A signal right after the first tick starts the second one nearly a period early. -/
theorem second_tick_early : ∃ laps : List Lap,
    Laps (ramp 1) (rtLoopStart initial (Timespec.nowNs ⟨0, 0⟩)) (Timespec.instant ⟨0, 0⟩) laps ∧
      ¬ OnSchedule (Timespec.instant ⟨0, 0⟩) laps := by
  have run := ramp_laps .eintr 7 ⟨by decide, by decide⟩ (by decide)
  refine ⟨_, run, ?_⟩
  intro scheduled
  have start := (scheduled 1 _ le_rfl rfl).1
  revert start
  decide

end RoboticsRt.RtExecutor

import RoboticsRt.Library.Llvm.Phis
import RoboticsRt.Proofs.Rewrite

/-! PHI nodes after the passes. A handler block that keeps another predecessor keeps an
entry for the lost one in each of its PHI nodes; nothing repairs that but its own deletion. -/

namespace RoboticsRt.Ubsan
open Llvm Worklist

/-- What one check does to the entries of every block. -/
structure PhiStep (F : Function) (check : Id) (G : Function) : Prop where
  gone : ∀ label, F.block? label = none ∨ Removes F check label → G.block? label = none
  matched : ∀ label, F.MatchesAt label → (Leaves F check label → F.entries label = []) → G.MatchesAt label
  spoiled : ∀ label, F.MatchesAt label → Leaves F check label → F.entries label ≠ [] → ¬ Removes F check label →
    G.StaleAt label
  stale : ∀ label, F.StaleAt label → ¬ Removes F check label → G.StaleAt label

section
variable {F G : Function} {check : Id} {label handler cont : Label}

theorem rewired_phis (sits : F.parent check = some label) (guarded : guard F label = some (handler, cont)) :
    (∀ l, F.MatchesAt l → (Leaves F check l → F.entries l = []) → (F.replaceBranch label cont).MatchesAt l) ∧
    (∀ l, F.MatchesAt l → Leaves F check l → F.entries l ≠ [] → (F.replaceBranch label cont).StaleAt l) ∧
    (∀ l, F.StaleAt l → (F.replaceBranch label cont).StaleAt l) := by
  obtain ⟨block, found, branch⟩ := guard_edges guarded
  have apart := guard_apart guarded
  refine ⟨fun l matched bare => ?_, fun l matched leaves phis => ?_, ?_⟩
  · by_cases lost : l = handler
    · have none := bare ((leaves_only sits guarded).mpr lost)
      intro preds node
      rw [Function.entries_replaceBranch, none] at node
      cases node
    · exact matched.of_same (Function.entries_replaceBranch _ _) (Function.edges_kept found branch lost)
  · obtain rfl := (leaves_only sits guarded).mp leaves
    exact Function.staleAt_replaceBranch found branch apart matched phis
  · exact fun l stale => stale.replaceBranch found branch apart

theorem Straightens.phis (straight : Straightens F label G) (sits : F.parent check = some label) : PhiStep F check G := by
  cases straight with
  | unguarded none =>
    have stays : ∀ l, ¬ Leaves F check l := by simp [leaves_iff sits, none]
    refine ⟨fun l gone => gone.resolve_right fun removes => ?_, fun _ matched _ => matched,
      fun l _ leaves => absurd leaves (stays l), fun _ stale _ => stale⟩
    exact stays l ((leaves_iff sits).mpr ((removes_iff sits).mp removes).1)
  | rewired guarded reached =>
    obtain ⟨matched, spoiled, stale⟩ := rewired_phis sits guarded
    refine ⟨?_, matched, fun l here leaves phis _ => spoiled l here leaves phis, fun l here _ => stale l here⟩
    rintro l (gone | removes)
    · simpa [Function.replaceBranch] using gone
    · exact absurd ((removes_only sits guarded).mp removes).2 reached
  | @removed handler cont guarded last =>
    obtain ⟨matched, spoiled, stale⟩ := rewired_phis sits guarded
    obtain ⟨dead, there⟩ := rewired_handler guarded
    have kept : ∀ l, ¬ Removes F check l → l ≠ handler := fun l stays same =>
      stays ((removes_only sits guarded).mpr ⟨same, last⟩)
    refine ⟨?_, fun l here bare => ?_, fun l here leaves phis stays => ?_, fun l here stays => ?_⟩
    · intro l gone
      rw [Function.block?_deleteDeadBlock there]
      by_cases same : l = handler
      · rw [if_pos same]
      · have absent := gone.resolve_right fun removes => same ((removes_only sits guarded).mp removes).1
        rw [if_neg same, Function.replaceBranch, Function.block?_mapBlocks, absent]
        rfl
    · by_cases same : l = handler
      · have absent : ((F.replaceBranch label cont).deleteDeadBlock handler).block? l = none := by
          rw [Function.block?_deleteDeadBlock there, if_pos same]
        intro preds node
        rw [Function.entries_outside absent] at node
        cases node
      · exact (matched l here bare).deleteDeadBlock there same
    · exact (spoiled l here leaves phis).deleteDeadBlock there (kept l stays)
    · exact (stale l here).deleteDeadBlock there (kept l stays)

theorem PhiStep.mapBlocks (step : PhiStep F check G) {change : Label → BasicBlock → BasicBlock}
    (phis : ∀ label block, (change label block).phis.map Phi.preds = block.phis.map Phi.preds)
    (successors : ∀ label block, (change label block).term.successors = block.term.successors) :
    PhiStep F check (G.mapBlocks change) := by
  have entries (l : Label) : (G.mapBlocks change).entries l = G.entries l := Function.entries_mapBlocks phis
  have edges (l pred : Label) : (G.mapBlocks change).edges pred l = G.edges pred l :=
    Function.edges_mapBlocks successors pred
  constructor
  · intro l absent
    rw [Function.block?_mapBlocks, step.gone l absent]
    rfl
  · exact fun l here bare => (step.matched l here bare).of_same (entries l) (edges l)
  · exact fun l here leaves nodes stays => (step.spoiled l here leaves nodes stays).of_same (entries l) (edges l)
  · exact fun l here stays => (step.stale l here stays).of_same (entries l) (edges l)

theorem straightenOverflowBranch_phis (step : straightenOverflowBranch F check = some G) : PhiStep F check G := by
  obtain ⟨label, sits, rfl⟩ := Option.map_eq_some_iff.mp step
  exact (straightenBranch_cases F label).phis sits

theorem optimizeSretNullCheck_phis (step : optimizeSretNullCheck F check = some G) : PhiStep F check G := by
  obtain ⟨label, sits, _, rfl⟩ := optimizeSretNullCheck_eq_some.mp step
  have straight := (straightenBranch_cases F label).phis sits
  have replaced : PhiStep F check ((straightenBranch F label).replaceAllUsesWith [check] (.bool false)) :=
    straight.mapBlocks (fun _ block => by simp [BasicBlock.subst, Function.comp_def, Function.preds_subst])
      (fun _ block => by simp [BasicBlock.subst])
  exact replaced.mapBlocks (fun _ _ => rfl) (fun _ _ => rfl)

end

/-! Whole runs. -/

def Spoils (turns : List (Turn Id Function)) (label : Label) : Prop :=
  ∃ turn ∈ turns, Leaves turn.state turn.entry label ∧ turn.state.entries label ≠ []

def Deletes (turns : List (Turn Id Function)) (label : Label) : Prop :=
  ∃ turn ∈ turns, Removes turn.state turn.entry label

structure PhiRun (turns : List (Turn Id Function)) (G : Function) : Prop where
  gone : ∀ label, Deletes turns label → G.block? label = none
  matched : ∀ label, (Spoils turns label → Deletes turns label) → G.MatchesAt label
  stale : ∀ label, Spoils turns label → ¬ Deletes turns label → G.StaleAt label

theorem PhiRun.step {turns : List (Turn Id Function)} {F G : Function} {check : Id} {rest : List Id}
    (run : PhiRun turns F) (step : PhiStep F check G) : PhiRun (turns ++ [⟨F, check, rest⟩]) G := by
  have spoils : ∀ label, Spoils (turns ++ [⟨F, check, rest⟩]) label ↔
      Spoils turns label ∨ Leaves F check label ∧ F.entries label ≠ [] := by
    simp [Spoils, or_and_right, exists_or]
  have deletes : ∀ label, Deletes (turns ++ [⟨F, check, rest⟩]) label ↔
      Deletes turns label ∨ Removes F check label := by
    simp [Deletes, or_and_right, exists_or]
  constructor
  · intro label deleted
    exact step.gone label (((deletes label).mp deleted).imp_left (run.gone label))
  · intro label repaired
    rw [spoils, deletes] at repaired
    by_cases deleted : Deletes turns label ∨ Removes F check label
    · intro preds node
      rw [Function.entries_outside (step.gone label (deleted.imp_left (run.gone label)))] at node
      cases node
    · obtain ⟨earlier, now⟩ := not_or.mp fun spoiled => deleted (repaired spoiled)
      refine step.matched label (run.matched label fun spoiled => absurd spoiled earlier) fun leaves => ?_
      by_contra phis
      exact now ⟨leaves, phis⟩
  · intro label spoiled kept
    rw [deletes, not_or] at kept
    by_cases before : Spoils turns label
    · exact step.stale label (run.stale label before kept.1) kept.2
    · obtain ⟨leaves, phis⟩ := ((spoils label).mp spoiled).resolve_left before
      exact step.spoiled label (run.matched label fun spoiled => absurd spoiled before) leaves phis kept.2

/-- Every handler block with PHI nodes that a branch was taken from is deleted by the same run. -/
def Repaired (turns : List (Turn Id Function)) : Prop := ∀ label, Spoils turns label → Deletes turns label

theorem PhiRun.phisMatch_iff {turns : List (Turn Id Function)} {G : Function} (run : PhiRun turns G) :
    G.PhisMatch ↔ Repaired turns := by
  constructor
  · intro matched label spoiled
    by_contra kept
    exact (run.stale label spoiled kept).not_matchesAt (matched label)
  · exact fun repaired label => run.matched label (repaired label)

theorem phis_run {step : Function → Id → Option Function} {F G : Function} {checks : List Id}
    (each : ∀ before check after, step before check = some after → PhiStep before check after)
    (matched : F.PhisMatch) (ran : checks.foldlM step F = some G) : PhiRun (iterations step F checks) G := by
  have start : PhiRun [] F := ⟨by simp [Deletes], fun label _ => matched label, by simp [Spoils]⟩
  exact foldlM_iterations (fun _ before check _ after run one => run.step (each before check after one)) start ran

/-- A branch is replaced without `removePredecessor`, so the handler's PHI nodes keep an entry for
an edge that is gone. The entry goes only with the block, when the last branch to it is taken away
too. -/
theorem phisMatch_iff_repaired (F : Function) (matched : F.PhisMatch) :
    (∀ G, straightenOverflowBranches F = some G →
      (G.PhisMatch ↔ Repaired (iterations straightenOverflowBranch F (collectOverflowInstructions F)))) ∧
    ∀ done G, done <+: nullChecks F → done.foldlM optimizeSretNullCheck F = some G →
      (G.PhisMatch ↔ Repaired (iterations optimizeSretNullCheck F done)) := by
  constructor
  · intro G ran
    exact (phis_run (fun _ _ _ => straightenOverflowBranch_phis) matched ran).phisMatch_iff
  · intro done G _ ran
    exact (phis_run (fun _ _ _ => optimizeSretNullCheck_phis) matched ran).phisMatch_iff

/-! Two additions whose checks report in one place, and a null check that reports alone. -/

private def firstSum : List Inst := [⟨1, .withOverflow .add true, [.arg 0, .arg 1]⟩, ⟨2, .extractValue 1, [.inst 1]⟩]

private def secondSum : List Inst := [⟨3, .withOverflow .add true, [.arg 0, .arg 2]⟩, ⟨4, .extractValue 1, [.inst 3]⟩]

def twoSums (hoisted : Bool) : Function where
  sret := []
  entry := 0
  blocks := [
    (0, { phis := [], insts := if hoisted then firstSum ++ secondSum else firstSum, term := .condBr (.inst 2) 2 1 }),
    (1, { phis := [], insts := if hoisted then [] else secondSum, term := .condBr (.inst 4) 2 3 }),
    (2, { phis := [⟨5, [(0, .arg 1), (1, .arg 2)]⟩],
          insts := [⟨6, .call (some "__ubsan_handle_add_overflow"), [.inst 5]⟩], term := .br 3 }),
    (3, { phis := [], insts := [], term := .ret none })]

def ownHandler : Function where
  sret := [true]
  entry := 0
  blocks := [
    (0, { phis := [], insts := [⟨1, .icmp .eq, [.arg 0, .const .null]⟩], term := .condBr (.inst 1) 1 2 }),
    (1, { phis := [⟨2, [(0, .arg 0)]⟩],
          insts := [⟨3, .call (some "__ubsan_handle_type_mismatch_v1"), [.inst 2]⟩], term := .br 2 }),
    (2, { phis := [], insts := [], term := .ret none })]

theorem last_branch_repairs :
    (∃ G, straightenOverflowBranches (twoSums false) = some G ∧ G.PhisMatch ∧ Repaired
      (iterations straightenOverflowBranch (twoSums false) (collectOverflowInstructions (twoSums false)))) ∧
    ∃ G, [1].foldlM optimizeSretNullCheck ownHandler = some G ∧ G.PhisMatch ∧
      Repaired (iterations optimizeSretNullCheck ownHandler [1]) := by
  have sums := phisMatch_iff_repaired (twoSums false) (by decide)
  have null := phisMatch_iff_repaired ownHandler (by decide)
  have sums_ran : straightenOverflowBranches (twoSums false) =
      some (((twoSums false).replaceBranch 0 1).replaceBranch 1 3 |>.deleteDeadBlock 2) := by decide +kernel
  have null_ran : [1].foldlM optimizeSretNullCheck ownHandler =
      some (((ownHandler.replaceBranch 0 2).deleteDeadBlock 1).eraseInst 1) := by decide +kernel
  have sums_matched : (((twoSums false).replaceBranch 0 1).replaceBranch 1 3 |>.deleteDeadBlock 2).PhisMatch := by decide
  have null_matched : (((ownHandler.replaceBranch 0 2).deleteDeadBlock 1).eraseInst 1).PhisMatch := by decide
  have listed : [1] <+: nullChecks ownHandler := by decide
  exact ⟨⟨_, sums_ran, sums_matched, (sums.1 _ sums_ran).mp sums_matched⟩,
    _, null_ran, null_matched, (null.2 [1] _ listed null_ran).mp null_matched⟩

/-- The handler keeps the second branch, and in its PHI node the entry for the first. -/
theorem shared_handler_spoiled : (twoSums true).PhisMatch ∧
    straightenOverflowBranches (twoSums true) = some ((twoSums true).replaceBranch 0 1) ∧
    ¬ ((twoSums true).replaceBranch 0 1).PhisMatch :=
  ⟨by decide, by decide +kernel, by decide⟩

end RoboticsRt.Ubsan

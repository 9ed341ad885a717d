import Mathlib.Data.List.Flatten
import RoboticsRt.Proofs.Rewrite

/-! The lists of checks against the blocks the passes delete. A list is collected first, so
an entry that sits in a handler block is freed with the block before its turn comes. -/

namespace RoboticsRt.Ubsan
open Llvm Worklist

/-- The handler the check's branch leaves does not go, or the other check is elsewhere. -/
def Spares (F : Function) (check other : Id) : Prop :=
  ∀ handler, Removes F check handler → F.parent other ≠ some handler

section
variable {F G : Function} {check other : Id} {label : Label}

theorem sits_replaceBranch (target l : Label) : (F.replaceBranch label target).Sits other l ↔ F.Sits other l := by
  apply Function.sits_mapBlocks
  intro here block
  split <;> rfl

theorem Straightens.sits_iff (straight : Straightens F label G) (sits : F.parent check = some label) (l : Label) :
    G.Sits other l ↔ F.Sits other l ∧ ¬ Removes F check l := by
  cases straight with
  | unguarded none => simp [removes_iff sits, none]
  | rewired guarded reached =>
    have stays : ¬ Removes F check l := fun removes => reached ((removes_only sits guarded).mp removes).2
    rw [sits_replaceBranch, and_iff_left stays]
  | removed guarded last =>
    obtain ⟨dead, there⟩ := rewired_handler guarded
    rw [Function.sits_deleteDeadBlock there, sits_replaceBranch, removes_only sits guarded, and_iff_left last]

theorem Straightens.oneHome (straight : Straightens F label G) (sits : F.parent check = some label) (one : F.OneHome) :
    G.OneHome := by
  intro id l l' first second
  exact one id l l' ((straight.sits_iff sits l).mp first).1 ((straight.sits_iff sits l').mp second).1

theorem Straightens.present_iff (straight : Straightens F label G) (sits : F.parent check = some label)
    (one : F.OneHome) : (G.parent other).isSome ↔ (F.parent other).isSome ∧ Spares F check other := by
  rw [Function.parent_isSome_iff, Option.isSome_iff_exists]
  simp only [straight.sits_iff sits, ← one.parent_iff]
  constructor
  · rintro ⟨l, home, stays⟩
    refine ⟨⟨l, home⟩, fun handler removes same => stays ?_⟩
    rw [home] at same
    cases same
    exact removes
  · rintro ⟨⟨l, home⟩, spared⟩
    exact ⟨l, home, fun removes => spared l removes home⟩

theorem overflow_deletes : Deleting straightenOverflowBranch Function.OneHome (fun F check => (F.parent check).isSome)
    (fun _ _ => True) Spares where
  absent F check absent := by
    rw [Option.not_isSome_iff_eq_none] at absent
    rw [straightenOverflowBranch, absent]
    rfl
  taken F check _ present := by
    rw [straightenOverflowBranch, Option.isSome_map, iff_true]
    exact present
  later F check G other one step _ := by
    obtain ⟨label, sits, rfl⟩ := Option.map_eq_some_iff.mp step
    exact (straightenBranch_cases F label).present_iff sits one
  valid F check G one step := by
    obtain ⟨label, sits, rfl⟩ := Option.map_eq_some_iff.mp step
    exact (straightenBranch_cases F label).oneHome sits one

theorem sits_folded (l : Label) : ((F.replaceAllUsesWith [check] (.bool false)).eraseInst check).Sits other l ↔
    F.Sits other l ∧ other ≠ check := by
  rw [Function.sits_eraseInst, Function.replaceAllUsesWith, Function.sits_mapBlocks]
  intro here block
  simp [BasicBlock.subst, Inst.subst, Function.comp_def]

theorem optimizeSretNullCheck_isSome : (optimizeSretNullCheck F check).isSome =
    (F.parent check).any fun label => ((straightenHandlerBranch F label).parent check).isSome := by
  unfold optimizeSretNullCheck
  cases F.parent check with
  | none => rfl
  | some label =>
    change Option.isSome (Option.bind ((straightenHandlerBranch F label).parent check) _) = _
    rw [Option.any_some]
    cases (straightenHandlerBranch F label).parent check <;> rfl

theorem null_checks_delete : Deleting optimizeSretNullCheck Function.OneHome (fun F check => (F.parent check).isSome)
    (fun F check => Spares F check check) Spares where
  absent F check absent := by
    rw [Option.not_isSome_iff_eq_none] at absent
    rw [optimizeSretNullCheck, absent]
    rfl
  taken F check one present := by
    obtain ⟨label, sits⟩ := Option.isSome_iff_exists.mp present
    have still : ((straightenBranch F label).parent check).isSome ↔ (F.parent check).isSome ∧ Spares F check check :=
      (straightenBranch_cases F label).present_iff sits one
    rw [optimizeSretNullCheck_isSome, sits, Option.any_some, straightenHandlerBranch, still, and_iff_right present]
  later F check G other one step apart := by
    obtain ⟨label, sits, _, rfl⟩ := optimizeSretNullCheck_eq_some.mp step
    rw [← (straightenBranch_cases F label).present_iff sits one, Function.parent_isSome_iff, Function.parent_isSome_iff]
    simp only [sits_folded, straightenHandlerBranch, and_iff_left apart]
  valid F check G one step := by
    obtain ⟨label, sits, _, rfl⟩ := optimizeSretNullCheck_eq_some.mp step
    have straight := (straightenBranch_cases F label).oneHome sits one
    intro id l l' first second
    exact straight id l l' ((sits_folded l).mp first).1 ((sits_folded l').mp second).1

theorem collect_nodup (wellFormed : WellFormed F) (test : Inst → Bool) : (collect F test).Nodup := by
  refine wellFormed.names.sublist (List.Sublist.flatMap_right F.blocks fun block _ => ?_)
  exact (List.filter_sublist.map Inst.id).trans (List.sublist_append_right _ _)

theorem collected_present (wellFormed : WellFormed F) {test : Inst → Bool} :
    ∀ check ∈ collect F test, (F.parent check).isSome := by
  intro check listed
  obtain ⟨label, block, found, inst, member, rfl, _⟩ := mem_collect listed wellFormed
  exact Function.parent_isSome_iff.mpr ⟨label, block, found, List.mem_map_of_mem member⟩

end

/-- The list of checks is made before the loops begin to delete blocks, so an entry of a deleted
block is a dangling pointer for the turns that are left. -/
theorem listed_checks_live_iff (F : Function) (wellFormed : WellFormed F) :
    ((∀ turn ∈ iterations straightenOverflowBranch F (collectOverflowInstructions F),
        (turn.state.parent turn.entry).isSome) ↔
      ∀ turn ∈ iterations straightenOverflowBranch F (collectOverflowInstructions F),
        ∀ later ∈ turn.rest, Spares turn.state turn.entry later) ∧
    ((∀ turn ∈ iterations optimizeSretNullCheck F (nullChecks F), (turn.state.parent turn.entry).any fun label =>
        ((straightenHandlerBranch turn.state label).parent turn.entry).isSome) ↔
      ∀ turn ∈ iterations optimizeSretNullCheck F (nullChecks F),
        ∀ later ∈ turn.entry :: turn.rest, Spares turn.state turn.entry later) := by
  constructor
  · have listed : (collectOverflowInstructions F).Nodup := collect_nodup wellFormed _
    have ends := overflow_deletes.isSome_iff listed wellFormed.oneHome (collected_present wellFormed)
    rw [foldlM_isSome_iff] at ends
    simpa only [straightenOverflowBranch, Option.isSome_map, true_and] using ends
  · have listed : (nullChecks F).Nodup := collect_nodup wellFormed _
    have ends := null_checks_delete.isSome_iff listed wellFormed.oneHome (collected_present wellFormed)
    rw [foldlM_isSome_iff] at ends
    simpa only [optimizeSretNullCheck_isSome, List.forall_mem_cons] using ends

/-! A null check and two additions; the code after the first addition may have been copied
behind its report. -/

private def nullCheck : Inst := ⟨1, .icmp .eq, [.arg 0, .const .null]⟩

private def addFirst : List Inst :=
  [⟨3, .withOverflow .add true, [.arg 1, .const (.int 32 1)]⟩, ⟨4, .extractValue 1, [.inst 3]⟩]

private def addSecond (id : Id) : Inst := ⟨id, .withOverflow .add true, [.arg 1, .const (.int 32 2)]⟩

private def reportSum : Inst := ⟨5, .call (some "__ubsan_handle_add_overflow"), [.arg 1]⟩

def sumsInARow (copied : Bool) : Function where
  sret := [true, false]
  entry := 0
  blocks := [
    (0, { phis := [], insts := [nullCheck], term := .condBr (.inst 1) 1 2 }),
    (1, { phis := [], insts := [⟨2, .call (some "__ubsan_handle_type_mismatch_v1"), [.arg 0]⟩], term := .br 2 }),
    (2, { phis := [], insts := addFirst, term := .condBr (.inst 4) 3 4 }),
    (3, { phis := [], insts := if copied then [reportSum, addSecond 6] else [reportSum],
          term := if copied then .ret none else .br 4 }),
    (4, { phis := [], insts := [addSecond 7], term := .ret none })]

theorem sumsInARow_wellFormed (copied : Bool) : WellFormed (sumsInARow copied) := by
  have known : ∀ copied, (sumsInARow copied).wellScoped
      fun label => if label = 0 then [] else if label ≤ 2 then [1] else [1, 3, 4] := by decide
  cases copied <;> exact {
    labels := by decide
    names := by decide
    rooted := by decide
    entry := by decide
    closed := by decide
    arity := by decide
    dominated := Function.wellScoped_dominated _ (known _) }

theorem plain_reports_spare :
    (∀ turn ∈ iterations straightenOverflowBranch (sumsInARow false) (collectOverflowInstructions (sumsInARow false)),
      ∀ later ∈ turn.rest, Spares turn.state turn.entry later) ∧
    ∀ turn ∈ iterations optimizeSretNullCheck (sumsInARow false) (nullChecks (sumsInARow false)),
      ∀ later ∈ turn.entry :: turn.rest, Spares turn.state turn.entry later := by
  have live := listed_checks_live_iff (sumsInARow false) (sumsInARow_wellFormed false)
  exact ⟨live.1.mp (by decide +kernel), live.2.mp (by decide +kernel)⟩

/-- The copy goes with the report, and comes up next. -/
theorem copied_sum_freed : WellFormed (sumsInARow true) ∧
    ¬ ∀ turn ∈ iterations straightenOverflowBranch (sumsInARow true) (collectOverflowInstructions (sumsInARow true)),
      (turn.state.parent turn.entry).isSome :=
  ⟨sumsInARow_wellFormed true, by decide +kernel⟩

end RoboticsRt.Ubsan

import RoboticsRt.Proofs.ProvenDead
import RoboticsRt.Ubsan.FunctionPasses

/-! Pipelines of the plugin's function passes, in any order and number: what one pass keeps,
the pipeline keeps, and what the managers preserve afterwards is right. -/

namespace RoboticsRt.Ubsan
open Llvm

def allInsts (F : Function) : List Id := collect F fun _ => true

section
variable {F G : Function} {analyses : Analyses} {pass : FunctionPass} {passes : List FunctionPass}
  {kept : PreservedAnalyses}

theorem wellFormed_nonempty (wellFormed : WellFormed F) : F.blocks.isEmpty = false := by
  rw [List.isEmpty_eq_false_iff]
  intro empty
  have rooted := wellFormed.rooted
  simp [Function.block?, empty] at rooted

/-! One pass. -/

theorem nullChecks_sublist (shrinks : Shrinks F G) : (nullChecks G).Sublist (nullChecks F) := by
  refine shrinks.collect fun after before left holds => ?_
  simp only [Bool.and_eq_true, beq_iff_eq, comparesSretToNull, List.any_eq_true] at holds ⊢
  obtain ⟨op, ⟨null, listed, isNull⟩, ⟨pointer, listed', isSret⟩⟩ := holds
  refine ⟨left.op ▸ op, ⟨null, ?_, isNull⟩, ⟨pointer, ?_, shrinks.sret ▸ isSret⟩⟩
  · rcases left.operands null listed with there | rfl | rfl
    · exact there
    · cases isNull
    · cases isNull
  · rcases left.operands pointer listed' with there | rfl | rfl
    · exact there
    · cases isSret
    · cases isSret

theorem nullChecks_optimized (wellFormed : WellFormed F) (ran : optimizeSretNullChecks F = some G) :
    nullChecks G = [] := by
  obtain ⟨values, rewritten⟩ := optimizeSretNullChecks_rewritten wellFormed ran
  have left := nullChecks_sublist (shrinks_optimizeSretNullChecks ran)
  rw [List.eq_nil_iff_forall_not_mem]
  intro check listed
  obtain ⟨label, after, there, inst, member, rfl, _⟩ := mem_collect listed (optimizeSretNullChecks_wellFormed wellFormed ran)
  obtain ⟨before, here, rewrites⟩ := rewritten.block label after there
  rw [rewrites.insts] at member
  obtain ⟨original, kept, rfl⟩ := List.mem_map.mp member
  exact of_decide_eq_true (List.mem_filter.mp kept).2 (left.subset listed)

/-- What a run of one pass leaves. -/
structure PassLeaves (F G : Function) (kept : PreservedAnalyses) : Prop where
  wellFormed : WellFormed G
  shrinks : Shrinks F G
  honest : kept.all = true ∧ G = F ∨ kept.all = false ∧ ∃ id ∈ allInsts F, id ∉ allInsts G

theorem PassLeaves.unchanged (wellFormed : WellFormed F) : PassLeaves F F ⟨true⟩ :=
  ⟨wellFormed, .refl F, .inl ⟨rfl, rfl⟩⟩

theorem mem_allInsts {id : Id} : id ∈ allInsts F ↔ ∃ entry ∈ F.blocks, ∃ inst ∈ entry.2.insts, inst.id = id := by
  simp [allInsts, collect]

theorem collect_allInsts {test : Inst → Bool} {id : Id} (listed : id ∈ collect F test) : id ∈ allInsts F := by
  obtain ⟨entry, there, found⟩ := List.mem_flatMap.mp listed
  obtain ⟨inst, member, rfl⟩ := List.mem_map.mp found
  exact mem_allInsts.mpr ⟨entry, there, inst, List.mem_of_mem_filter member, rfl⟩

theorem signedOverflowOptimize_leaves (wellFormed : WellFormed F) {answers : Id → Operands}
    (ran : signedOverflowOptimize F answers = some (G, kept)) : PassLeaves F G kept := by
  obtain ⟨removable, _, rfl, all⟩ := signedOverflowOptimize_result wellFormed ran
  refine ⟨withoutBits_wellFormed wellFormed removable, shrinks_withoutBits _, ?_⟩
  cases bits : removedBits F removable with
  | nil => exact .inl ⟨by rw [all, bits]; rfl, by rw [withoutBits_nil]⟩
  | cons bit rest =>
    refine .inr ⟨by rw [all, bits]; rfl, bit, collect_allInsts (bits ▸ .head _ : bit ∈ removedBits F removable), ?_⟩
    rw [mem_allInsts]
    rintro ⟨entry, there, inst, member, rfl⟩
    obtain ⟨before, _, rfl⟩ := List.mem_map.mp there
    obtain ⟨original, left, named⟩ := List.mem_map.mp member
    have away := of_decide_eq_true (List.mem_filter.mp left).2
    rw [← named] at away
    exact away (.head _)

theorem sretNullChecksRun_leaves (wellFormed : WellFormed F) (ran : sretNullChecksRun F = some (G, kept)) :
    PassLeaves F G kept ∧ optimizeSretNullChecks F = some G := by
  simp only [sretNullChecksRun, wellFormed_nonempty wellFormed, Bool.false_eq_true, if_false, Option.map_eq_some_iff,
    Prod.mk.injEq] at ran
  obtain ⟨G, ran, rfl, rfl⟩ := ran
  refine ⟨⟨optimizeSretNullChecks_wellFormed wellFormed ran, shrinks_optimizeSretNullChecks ran, ?_⟩, ran⟩
  cases checks : nullChecks F with
  | nil =>
    rw [optimizeSretNullChecks, checks] at ran
    cases ran
    exact .inl ⟨rfl, rfl⟩
  | cons check rest =>
    have listed : check ∈ nullChecks F := checks ▸ .head _
    refine .inr ⟨rfl, check, collect_allInsts listed, fun left => ?_⟩
    obtain ⟨values, rewritten⟩ := optimizeSretNullChecks_rewritten wellFormed ran
    obtain ⟨⟨label, after⟩, there, inst, member, rfl⟩ := mem_allInsts.mp left
    have labels := (optimizeSretNullChecks_wellFormed wellFormed ran).labels
    obtain ⟨before, here, rewrites⟩ := rewritten.block label after (Assoc.lookup_of_mem labels there)
    dsimp only at member
    rw [rewrites.insts] at member
    obtain ⟨original, survives, named⟩ := List.mem_map.mp member
    have away := of_decide_eq_true (List.mem_filter.mp survives).2
    rw [← named] at listed
    exact away listed

theorem signedOverflowAnalysis_same (ran : FunctionPass.signedOverflowAnalysis.run analyses F = some (G, kept)) :
    G = F := by
  simp only [FunctionPass.run, signedOverflowAnalysisRun] at ran
  split at ran
  · cases ran
    rfl
  · split at ran
    · cases ran
      rfl
    · obtain ⟨_, _, same⟩ := Option.map_eq_some_iff.mp ran
      cases same
      rfl

theorem FunctionPass.leaves (wellFormed : WellFormed F) (ran : pass.run analyses F = some (G, kept)) :
    PassLeaves F G kept := by
  cases pass with
  | signedOverflowOptimize => exact signedOverflowOptimize_leaves wellFormed ran
  | optimizeSretNullChecks => exact (sretNullChecksRun_leaves wellFormed ran).1
  | signedOverflowAnalysis =>
    simp only [FunctionPass.run, signedOverflowAnalysisRun, wellFormed_nonempty wellFormed, Bool.false_eq_true, if_false] at ran
    split at ran
    · cases ran
      exact .unchanged wellFormed
    · obtain ⟨_, _, same⟩ := Option.map_eq_some_iff.mp ran
      cases same
      exact .unchanged wellFormed

/-! All of them. -/

theorem PassLeaves.andThen {H : Function} {more : PreservedAnalyses} (first : PassLeaves F G kept)
    (second : PassLeaves G H more) : PassLeaves F H (kept.intersect more) := by
  have fewer : (allInsts H).Sublist (allInsts G) := second.shrinks.collect fun _ _ _ _ => rfl
  have fewer' : (allInsts G).Sublist (allInsts F) := first.shrinks.collect fun _ _ _ _ => rfl
  refine ⟨second.wellFormed, first.shrinks.trans second.shrinks, ?_⟩
  rcases first.honest with ⟨all, rfl⟩ | ⟨none, id, there, gone⟩
  · rcases second.honest with ⟨all', rfl⟩ | ⟨none, id, there, gone⟩
    · exact .inl ⟨by simp [PreservedAnalyses.intersect, all, all'], rfl⟩
    · exact .inr ⟨by simp [PreservedAnalyses.intersect, none], id, there, gone⟩
  · exact .inr ⟨by simp [PreservedAnalyses.intersect, none], id, there, fun left => gone (fewer.subset left)⟩

theorem runPasses_cons {rest : List FunctionPass} : runPasses analyses (pass :: rest) F = some (G, kept) ↔
    ∃ H first more, pass.run analyses F = some (H, first) ∧ runPasses analyses rest H = some (G, more) ∧
      kept = first.intersect more := by
  simp only [runPasses, Option.bind_eq_bind, Option.bind_eq_some_iff, Option.pure_def, Option.some.injEq, Prod.mk.injEq]
  constructor
  · rintro ⟨⟨H, first⟩, one, ⟨H', more⟩, remaining, rfl, rfl⟩
    exact ⟨H, first, more, one, remaining, rfl⟩
  · rintro ⟨H, first, more, one, remaining, rfl⟩
    exact ⟨(H, first), one, (G, more), remaining, rfl, rfl⟩

theorem runPasses_leaves (wellFormed : WellFormed F) (ran : runPasses analyses passes F = some (G, kept)) :
    PassLeaves F G kept := by
  induction passes generalizing F kept with
  | nil =>
    cases ran
    exact .unchanged wellFormed
  | cons pass rest ih =>
    obtain ⟨H, first, more, one, remaining, rfl⟩ := runPasses_cons.mp ran
    have leaves := FunctionPass.leaves wellFormed one
    exact leaves.andThen (ih leaves.wellFormed remaining)

/-! The sites that are counted. -/

def siteName (inst : Inst) : Option String :=
  match inst.op with
  | .call (some callee) => if isUBSanSite inst.op then some callee else none
  | _ => none

def sites (F : Function) : List String := F.blocks.flatMap fun block => block.2.insts.filterMap siteName

theorem siteNames_eq (M : Module) : siteNames M = M.functions.flatMap fun entry => sites entry.2 := rfl

theorem siteName_left {after before : Inst} (left : InstLeft after before) : siteName after = siteName before := by
  simp only [siteName, left.op]

theorem Shrinks.sites (shrinks : Shrinks F G) : (Ubsan.sites G).Sublist (Ubsan.sites F) := by
  simp only [Ubsan.sites, List.filterMap_eq_flatMap_toList]
  exact shrinks.listed fun after before left => by rw [siteName_left left]

theorem sites_withoutBits (wellFormed : WellFormed F) (removable : List Id) :
    sites (withoutBits F (removedBits F removable)) = sites F := by
  simp only [sites, withoutBits, Function.mapBlocks, List.flatMap_map, BasicBlock.withoutBits, List.filterMap_map,
    List.filterMap_filter]
  refine List.flatMap_congr fun entry there => List.filterMap_congr fun inst member => ?_
  by_cases gone : inst.id ∈ removedBits F removable
  · obtain ⟨wo, _, listed⟩ := mem_removedBits.mp gone
    obtain ⟨label, block, here, bit, member', named, op, _⟩ := mem_overflowBits wellFormed listed
    have here' := Assoc.lookup_of_mem wellFormed.labels there
    obtain rfl := wellFormed.same_inst here here' member' member named.symm
    simp [gone, siteName, op]
  · have same : siteName (inst.subst (folded (removedBits F removable))) = siteName inst := rfl
    simp [gone, same]

theorem FunctionPass.keeps_sites (wellFormed : WellFormed F) (other : pass ≠ .optimizeSretNullChecks)
    (ran : pass.run analyses F = some (G, kept)) : sites G = sites F := by
  cases pass with
  | signedOverflowOptimize =>
    obtain ⟨removable, _, rfl, _⟩ := signedOverflowOptimize_result wellFormed ran
    exact sites_withoutBits wellFormed removable
  | optimizeSretNullChecks => exact absurd rfl other
  | signedOverflowAnalysis => rw [signedOverflowAnalysis_same ran]

theorem runPasses_keeps_sites (wellFormed : WellFormed F) (others : .optimizeSretNullChecks ∉ passes)
    (ran : runPasses analyses passes F = some (G, kept)) : sites G = sites F := by
  induction passes generalizing F kept with
  | nil =>
    cases ran
    rfl
  | cons pass rest ih =>
    obtain ⟨H, first, more, one, remaining, _⟩ := runPasses_cons.mp ran
    have leaves := FunctionPass.leaves wellFormed one
    have other : pass ≠ .optimizeSretNullChecks := fun same => others (same ▸ .head _)
    rw [ih leaves.wellFormed (fun listed => others (.tail _ listed)) remaining]
    exact FunctionPass.keeps_sites wellFormed other one

/-! Modules. -/

def ModuleWellFormed (M : Module) : Prop := ∀ entry ∈ M.functions, entry.2.blocks.isEmpty = false → WellFormed entry.2

/-- What the managers leave of one function. -/
structure FunctionLeft (passes : List FunctionPass) (after before : String × Function) : Prop where
  name : after.1 = before.1
  wellFormed : after.2.blocks.isEmpty = false → WellFormed after.2
  shrinks : Shrinks before.2 after.2
  sites : .optimizeSretNullChecks ∉ passes → sites after.2 = sites before.2

theorem runOnFunction_leaves (name : String) (wellFormed : F.blocks.isEmpty = false → WellFormed F)
    (ran : runOnFunction analyses passes F = some (G, kept)) :
    FunctionLeft passes (name, G) (name, F) ∧ (kept.all = true ↔ G = F) := by
  unfold runOnFunction at ran
  split at ran
  · next declaration =>
    cases ran
    refine ⟨⟨rfl, fun body => ?_, .refl F, fun _ => rfl⟩, by simp⟩
    rw [declaration] at body
    cases body
  · next body =>
    have wellFormed := wellFormed (by simpa using body)
    have leaves := runPasses_leaves wellFormed ran
    refine ⟨⟨rfl, fun _ => leaves.wellFormed, leaves.shrinks, fun plain => runPasses_keeps_sites wellFormed plain ran⟩, ?_⟩
    rcases leaves.honest with ⟨all, rfl⟩ | ⟨none, id, there, gone⟩
    · simp [all]
    · rw [none]
      exact ⟨nofun, fun same => absurd there (same ▸ gone)⟩

theorem runOnFunctions_leaves {functions functions' : List (String × Function)}
    (wellFormed : ∀ entry ∈ functions, entry.2.blocks.isEmpty = false → WellFormed entry.2)
    (ran : runOnFunctions analyses passes functions = some (functions', kept)) :
    List.Forall₂ (FunctionLeft passes) functions' functions ∧ (kept.all = true ↔ functions' = functions) := by
  induction functions generalizing functions' kept with
  | nil =>
    cases ran
    exact ⟨.nil, by simp⟩
  | cons entry rest ih =>
    obtain ⟨name, F⟩ := entry
    simp only [runOnFunctions, Option.bind_eq_bind, Option.bind_eq_some_iff, Option.pure_def, Option.some.injEq,
      Prod.mk.injEq] at ran
    obtain ⟨⟨G, first⟩, one, ⟨others, more⟩, remaining, rfl, rfl⟩ := ran
    obtain ⟨left, honest⟩ := ih (fun entry later => wellFormed entry (.tail _ later)) remaining
    have head := runOnFunction_leaves name (wellFormed _ (.head _)) one
    refine ⟨.cons head.1 left, ?_⟩
    simp [PreservedAnalyses.intersect, honest, head.2]

variable {M M' : Module}

theorem runOnModule_leaves (wellFormed : ModuleWellFormed M) (ran : runOnModule analyses passes M = some (M', kept)) :
    M'.name = M.name ∧ List.Forall₂ (FunctionLeft passes) M'.functions M.functions ∧
      (kept.all = true ↔ M' = M) := by
  obtain ⟨⟨functions, kept'⟩, ran, same⟩ := Option.map_eq_some_iff.mp ran
  cases same
  obtain ⟨left, honest⟩ := runOnFunctions_leaves wellFormed ran
  obtain ⟨name, before⟩ := M
  exact ⟨rfl, left, by simp [honest]⟩

end

/-! The default pipeline on a module with one function for each pass. -/

def twoFunctions : Module := ⟨"demo", [("next", nextOf .unreachable), ("branches", branchesOn 1)]⟩

def twoFunctionsSimplified : Module := ⟨"demo", [("next", nextOfOptimized .unreachable), ("branches", branchesOnNone)]⟩

theorem twoFunctions_wellFormed : ModuleWellFormed twoFunctions := by
  intro entry there _
  rcases List.mem_cons.mp there with rfl | there
  · exact nextOf_wellFormed
  · cases List.mem_singleton.mp there
    exact branchesOn_wellFormed (.inl rfl)

theorem twoFunctions_ran : runOnModule (fun _ _ => belowHundred) earlySimplification twoFunctions =
    some (twoFunctionsSimplified, ⟨false⟩) := by
  decide +kernel

/-- Labels, names, operands and dominance stay in order whatever passes run and in whatever order.
The entries of PHI nodes are no part of this: the null-check pass may leave too many of them. -/
theorem module_stays_wellFormed (M M' : Module) (analyses : Analyses) (passes : List FunctionPass)
    (kept : PreservedAnalyses) (wellFormed : ModuleWellFormed M)
    (ran : runOnModule analyses passes M = some (M', kept)) : ModuleWellFormed M' := by
  obtain ⟨_, left, _⟩ := runOnModule_leaves wellFormed ran
  intro entry there body
  obtain ⟨index, inside, rfl⟩ := List.getElem_of_mem there
  exact (left.get inside (left.length_eq ▸ inside)).wellFormed body

theorem two_functions_wellFormed : ModuleWellFormed twoFunctionsSimplified :=
  module_stays_wellFormed _ _ _ _ _ twoFunctions_wellFormed twoFunctions_ran

theorem preserved_iff_unchanged (M M' : Module) (analyses : Analyses) (passes : List FunctionPass)
    (kept : PreservedAnalyses) (wellFormed : ModuleWellFormed M)
    (ran : runOnModule analyses passes M = some (M', kept)) : kept.all = true ↔ M' = M :=
  (runOnModule_leaves wellFormed ran).2.2

theorem two_functions_changed : (PreservedAnalyses.mk false).all = true ↔ twoFunctionsSimplified = twoFunctions :=
  preserved_iff_unchanged _ _ _ _ _ twoFunctions_wellFormed twoFunctions_ran

/-- The optimizations fold and erase, and neither adds a call. Only the handler blocks that the
null-check pass deletes take sites with them. -/
theorem sites_only_go (M M' : Module) (analyses : Analyses) (passes : List FunctionPass)
    (kept : PreservedAnalyses) (wellFormed : ModuleWellFormed M)
    (ran : runOnModule analyses passes M = some (M', kept)) :
    (siteNames M').Sublist (siteNames M) ∧ (.optimizeSretNullChecks ∉ passes → siteNames M' = siteNames M) := by
  obtain ⟨_, left, _⟩ := runOnModule_leaves wellFormed ran
  rw [siteNames_eq, siteNames_eq]
  generalize M'.functions = after, M.functions = before at left
  induction left with
  | nil => exact ⟨.refl _, fun _ => rfl⟩
  | cons first _ ih =>
    simp only [List.flatMap_cons]
    exact ⟨first.shrinks.sites.append ih.1, fun plain => by rw [first.sites plain, ih.2 plain]⟩

theorem two_functions_sites : (siteNames twoFunctionsSimplified).Sublist (siteNames twoFunctions) ∧
    (.optimizeSretNullChecks ∉ earlySimplification → siteNames twoFunctionsSimplified = siteNames twoFunctions) :=
  sites_only_go _ _ _ _ _ twoFunctions_wellFormed twoFunctions_ran

/-- No pass adds a comparison, so once the null-check pass has run there is nothing left for it,
whatever ran in between. -/
theorem null_checks_run_once (F G : Function) (analyses : Analyses) (between : List FunctionPass)
    (kept : PreservedAnalyses) (wellFormed : WellFormed F)
    (ran : runPasses analyses (.optimizeSretNullChecks :: between) F = some (G, kept)) :
    sretNullChecksRun G = some (G, ⟨true⟩) := by
  obtain ⟨H, first, more, one, remaining, _⟩ := runPasses_cons.mp ran
  obtain ⟨leaves, optimized⟩ := sretNullChecksRun_leaves wellFormed one
  have later := runPasses_leaves leaves.wellFormed remaining
  have none : nullChecks G = [] := by
    have fewer := nullChecks_sublist later.shrinks
    rw [nullChecks_optimized wellFormed optimized] at fewer
    exact List.sublist_nil.mp fewer
  simp [sretNullChecksRun, wellFormed_nonempty later.wellFormed, optimizeSretNullChecks, none]

theorem branches_once : sretNullChecksRun branchesOnNone = some (branchesOnNone, ⟨true⟩) :=
  null_checks_run_once (branchesOn 1) _ (fun _ _ => belowHundred) [.signedOverflowOptimize] ⟨false⟩
    (branchesOn_wellFormed (.inl rfl)) (by decide +kernel)

end RoboticsRt.Ubsan

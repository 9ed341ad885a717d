import RoboticsRt.Proofs.Precision
import RoboticsRt.Ubsan.Optimize

/-! What `UBSanSignedOverflowOptimize` leaves of a function: the overflow bits of the checks
proved dead are gone, and `false` stands for them. -/

namespace RoboticsRt.Ubsan
open Llvm

def folded (bits : List Id) : Subst := fun id => if id ∈ bits then some (.bool false) else none

def BasicBlock.withoutBits (bits : List Id) (block : BasicBlock) : BasicBlock :=
  { block.subst (folded bits) with insts := (block.insts.filter (·.id ∉ bits)).map (Inst.subst (folded bits)) }

def withoutBits (F : Function) (bits : List Id) : Function :=
  F.mapBlocks fun _ block => BasicBlock.withoutBits bits block

def removedBits (F : Function) (removable : List Id) : List Id :=
  collect F fun inst => inst.op == .extractValue 1 && removable.any fun wo => inst.operands == [.inst wo]

section
variable {F : Function} {bits removable : List Id} {wo id : Id}

theorem folded_isSome : (folded bits id).isSome ↔ id ∈ bits := by
  simp [folded]

theorem folded_eq_none : folded bits id = none ↔ id ∉ bits := by
  simp [folded]

theorem folded_append (bits : List Id) (ev : Id) : (folded bits).andThen (folded [ev]) = folded (bits ++ [ev]) := by
  funext id
  by_cases old : id ∈ bits <;> simp [Subst.andThen, folded, old]

theorem mapBlocks_mapBlocks (first second : Label → BasicBlock → BasicBlock) :
    (F.mapBlocks first).mapBlocks second = F.mapBlocks fun label block => second label (first label block) := by
  simp [Function.mapBlocks, Function.comp_def]

/-- The state of the pass once these bits are folded. -/
structure Folds (F : Function) (state : Rewriting) (bits : List Id) : Prop where
  function : state.function = withoutBits F bits
  changed : state.changed = !bits.isEmpty

theorem Folds.foldBit {state : Rewriting} (folds : Folds F state bits) (ev : Id) :
    Folds F (state.foldBit ev) (bits ++ [ev]) where
  function := by
    have one (block : BasicBlock) : ((BasicBlock.withoutBits bits block).subst (folded [ev])).eraseInst ev =
        BasicBlock.withoutBits (bits ++ [ev]) block := by
      have phis : (block.phis.map (Phi.subst (folded bits))).map (Phi.subst (folded [ev])) =
          block.phis.map (Phi.subst (folded (bits ++ [ev]))) := by
        simp [Phi.subst, Operand.subst_subst, folded_append, Function.comp_def]
      have insts : (((block.insts.filter (·.id ∉ bits)).map (Inst.subst (folded bits))).map
          (Inst.subst (folded [ev]))).filter (·.id != ev) =
          (block.insts.filter (·.id ∉ bits ++ [ev])).map (Inst.subst (folded (bits ++ [ev]))) := by
        have substs : Inst.subst (folded [ev]) ∘ Inst.subst (folded bits) = Inst.subst (folded (bits ++ [ev])) := by
          funext inst
          rw [Function.comp_apply, Inst.subst_subst, folded_append]
        rw [List.map_map, List.filter_map, List.filter_filter, substs]
        refine congrArg (List.map _) (List.filter_congr fun inst _ => ?_)
        rw [Bool.eq_iff_iff]
        simp [Inst.subst, and_comm]
      have term : (block.term.subst (folded bits)).subst (folded [ev]) = block.term.subst (folded (bits ++ [ev])) := by
        rw [Terminator.subst_subst, folded_append]
      simp only [BasicBlock.eraseInst, BasicBlock.subst, BasicBlock.withoutBits, phis, insts, term]
    rw [Rewriting.foldBit, folds.function]
    simp only [withoutBits, Function.eraseInst, Function.replaceAllUsesWith, mapBlocks_mapBlocks]
    exact congrArg F.mapBlocks (funext fun _ => funext one)
  changed := by simp [Rewriting.foldBit]

theorem withoutBits_congr {other : List Id} (same : ∀ id, id ∈ bits ↔ id ∈ other) :
    withoutBits F bits = withoutBits F other := by
  have values : folded bits = folded other := by
    funext id
    simp [folded, same]
  simp only [withoutBits, BasicBlock.withoutBits, values, same]

theorem withoutBits_nil : withoutBits F [] = F := by
  have nothing : folded [] = fun _ => none := by
    funext id
    simp [folded]
  have phi (p : Phi) : p.subst (fun _ => none) = p := by
    simp [Phi.subst, Operand.subst_none]
  simp [withoutBits, BasicBlock.withoutBits, BasicBlock.subst, nothing, funext phi, funext Inst.subst_none,
    Terminator.subst_none, Function.mapBlocks]

theorem collect_withoutBits (test : Inst → Bool) : collect (withoutBits F bits) test =
    collect F fun inst => decide (inst.id ∉ bits) && test (inst.subst (folded bits)) := by
  simp only [collect, withoutBits, Function.mapBlocks, List.flatMap_map, BasicBlock.withoutBits, List.filter_map,
    List.filter_filter, List.map_map]
  refine List.flatMap_congr fun block _ => ?_
  have ids : Inst.id ∘ Inst.subst (folded bits) = Inst.id := rfl
  rw [ids]
  refine congrArg (List.map _) (List.filter_congr fun inst _ => ?_)
  exact Bool.and_comm _ _

theorem operands_eq_inst {operands : List Llvm.Operand} (kept : wo ∉ bits) :
    operands.map (Operand.subst (folded bits)) = [.inst wo] ↔ operands = [.inst wo] := by
  rw [List.map_eq_singleton_iff]
  simp only [Operand.subst_eq_inst, folded_eq_none.mpr kept, and_true, exists_eq_right]

theorem overflowBits_withoutBits (kept : wo ∉ bits) :
    overflowBits (withoutBits F bits) wo = (overflowBits F wo).filter (· ∉ bits) := by
  rw [overflowBits, collect_withoutBits, overflowBits]
  simp only [collect, List.filter_flatMap, List.filter_map, List.filter_filter]
  refine List.flatMap_congr fun block _ => congrArg (List.map _) (List.filter_congr fun inst _ => ?_)
  rw [Bool.eq_iff_iff]
  simp [Inst.subst, operands_eq_inst kept]

/-- The loop over one check's users. -/
theorem Folds.foldBits {state : Rewriting} (folds : Folds F state bits) (kept : wo ∉ bits) :
    ∃ more, Folds F (state.foldBits wo) more ∧ ∀ id, id ∈ more ↔ id ∈ bits ∨ id ∈ overflowBits F wo := by
  have each : ∀ ev ∈ overflowBits state.function wo, ∀ done before, Folds F before (bits ++ done) →
      Folds F (before.foldBit ev) (bits ++ (done ++ [ev])) := by
    intro ev _ done before folds
    rw [← List.append_assoc]
    exact folds.foldBit ev
  have start : Folds F state (bits ++ []) := by rwa [List.append_nil]
  refine ⟨_, Worklist.foldl_done each start, fun id => ?_⟩
  rw [folds.function, overflowBits_withoutBits kept, List.nil_append, List.mem_append, List.mem_filter]
  by_cases old : id ∈ bits <;> simp [old]

theorem mem_removedBits : id ∈ removedBits F removable ↔ ∃ wo ∈ removable, id ∈ overflowBits F wo := by
  simp only [removedBits, overflowBits, collect, List.mem_flatMap, List.mem_map, List.mem_filter, Bool.and_eq_true,
    List.any_eq_true]
  constructor
  · rintro ⟨block, listed, inst, ⟨member, op, wo, taken, operands⟩, named⟩
    exact ⟨wo, taken, block, listed, inst, ⟨member, op, operands⟩, named⟩
  · rintro ⟨wo, taken, block, listed, inst, ⟨member, op, operands⟩, named⟩
    exact ⟨block, listed, inst, ⟨member, op, wo, taken, operands⟩, named⟩

theorem check_not_bit (wellFormed : WellFormed F) {check : Id} (listed : check ∈ collectOverflowInstructions F) :
    check ∉ overflowBits F wo := by
  intro bit
  obtain ⟨label, block, here, inst, member, named, test⟩ := mem_collect listed wellFormed
  obtain ⟨label', block', here', inst', member', named', test'⟩ := mem_collect bit wellFormed
  obtain rfl := wellFormed.same_inst here here' member member' (named'.trans named.symm)
  simp only [Bool.and_eq_true, beq_iff_eq] at test'
  rw [test'.1] at test
  cases test

theorem foldRemovable_folds (wellFormed : WellFormed F) (collected : removable ⊆ collectOverflowInstructions F) :
    Folds F (foldRemovable removable (collectOverflowInstructions F) F) (removedBits F removable) := by
  have each : ∀ wo ∈ collectOverflowInstructions F, ∀ done before,
      (∃ bits, Folds F before bits ∧ ∀ id, id ∈ bits ↔ ∃ wo ∈ done, wo ∈ removable ∧ id ∈ overflowBits F wo) →
      ∃ bits, Folds F (if removable.contains wo then before.foldBits wo else before) bits ∧
        ∀ id, id ∈ bits ↔ ∃ other ∈ done ++ [wo], other ∈ removable ∧ id ∈ overflowBits F other := by
    intro wo listed done before ⟨bits, folds, members⟩
    by_cases taken : wo ∈ removable
    · have kept : wo ∉ bits := by
        rw [members]
        rintro ⟨other, _, _, bit⟩
        exact check_not_bit wellFormed listed bit
      obtain ⟨more, folds, added⟩ := folds.foldBits kept
      refine ⟨more, by simpa [taken] using folds, fun id => ?_⟩
      simp [added, members, or_and_right, exists_or, taken]
    · refine ⟨bits, by simpa [taken] using folds, fun id => ?_⟩
      simp [members, or_and_right, exists_or, taken]
  have start : ∃ bits, Folds F ⟨F, false⟩ bits ∧ ∀ id, id ∈ bits ↔ ∃ wo ∈ [], wo ∈ removable ∧ id ∈ overflowBits F wo :=
    ⟨[], ⟨withoutBits_nil.symm, rfl⟩, by simp⟩
  obtain ⟨bits, folds, members⟩ := Worklist.foldl_done each start
  have same : ∀ id, id ∈ bits ↔ id ∈ removedBits F removable := by
    intro id
    rw [members, mem_removedBits, List.nil_append]
    constructor
    · rintro ⟨wo, _, taken, bit⟩
      exact ⟨wo, taken, bit⟩
    · rintro ⟨wo, taken, bit⟩
      exact ⟨wo, collected taken, taken, bit⟩
  refine ⟨folds.function.trans (withoutBits_congr same), folds.changed.trans ?_⟩
  rw [Bool.eq_iff_iff]
  simp only [Bool.not_eq_true', List.isEmpty_eq_false_iff, ne_eq, List.eq_nil_iff_forall_not_mem, same]

/-! The run. -/

variable {G : Function} {answers : Id → Operands} {preserved : PreservedAnalyses}

theorem straightened_nil (label : Label) : straightened F [] label = none := by
  simp [straightened, checked, Option.any_eq_true]

theorem removed_collected {check : Id} (removed : Removed F answers check) : check ∈ collectOverflowInstructions F := by
  obtain ⟨clone, wo, _, collected, _⟩ := mem_provenOnClone.mp removed
  exact collected

/-- The pass tests the users of a check for the bit one by one. What it leaves is the function
without all bits of the checks it proved dead, whatever order they came in. -/
theorem signedOverflowOptimize_result (wellFormed : WellFormed F)
    (ran : signedOverflowOptimize F answers = some (G, preserved)) :
    ∃ removable, (∀ check, check ∈ removable ↔ Removed F answers check) ∧
      G = withoutBits F (removedBits F removable) ∧ preserved.all = (removedBits F removable).isEmpty := by
  have untouched (nothing : ∀ check, ¬ Removed F answers check) : some (F, PreservedAnalyses.mk true) = some (G, preserved) →
      ∃ removable, (∀ check, check ∈ removable ↔ Removed F answers check) ∧
        G = withoutBits F (removedBits F removable) ∧ preserved.all = (removedBits F removable).isEmpty := by
    intro same
    cases same
    have none : removedBits F [] = [] := by simp [removedBits, collect]
    exact ⟨[], by simp [nothing], by rw [none, withoutBits_nil], by rw [none]; rfl⟩
  have listed {check : Id} (removed : Removed F answers check) : check ∈ collectOverflowInstructions F :=
    removed_collected removed
  unfold signedOverflowOptimize at ran
  split at ran
  · next declaration =>
    refine untouched (fun check removed => ?_) ran
    have collected := listed removed
    simp [collectOverflowInstructions, collect, List.isEmpty_iff.mp declaration] at collected
  · dsimp only at ran
    split at ran
    · next unchecked =>
      refine untouched (fun check removed => ?_) ran
      have collected := listed removed
      rw [List.isEmpty_iff.mp unchecked] at collected
      cases collected
    · obtain ⟨removable, proven, result⟩ := Option.bind_eq_some_iff.mp ran
      have members (check : Id) : check ∈ removable ↔ Removed F answers check := by
        simp [Removed, proven]
      split at result
      · next nothing =>
        refine untouched (fun check removed => ?_) result
        rw [← members, List.isEmpty_iff.mp nothing] at removed
        cases removed
      · have collected : removable ⊆ collectOverflowInstructions F := fun check taken => listed ((members check).mp taken)
        have folds := foldRemovable_folds wellFormed collected
        cases result
        exact ⟨removable, members, folds.function, by rw [folds.changed, Bool.not_not]⟩

theorem withoutBits_block (bits : List Id) (label : Label) :
    (withoutBits F bits).block? label = (F.block? label).map (BasicBlock.withoutBits bits) :=
  Function.block?_mapBlocks F _ label

theorem mem_overflowBits (wellFormed : WellFormed F) {wo bit : Id} (listed : bit ∈ overflowBits F wo) :
    ∃ label block, F.block? label = some block ∧ ∃ inst ∈ block.insts, inst.id = bit ∧
      inst.op = .extractValue 1 ∧ inst.operands = [.inst wo] := by
  obtain ⟨label, block, here, inst, member, named, test⟩ := mem_collect listed wellFormed
  simp only [Bool.and_eq_true, beq_iff_eq] at test
  exact ⟨label, block, here, inst, member, named, test⟩

theorem withoutBits_rewritten (wellFormed : WellFormed F) (removable : List Id) :
    Rewritten F [] (removedBits F removable) (folded (removedBits F removable))
      (withoutBits F (removedBits F removable)) := by
  have bit {id : Id} (gone : id ∈ removedBits F removable) : ∃ label block, F.block? label = some block ∧
      ∃ inst ∈ block.insts, inst.id = id ∧ inst.op = .extractValue 1 := by
    obtain ⟨wo, _, listed⟩ := mem_removedBits.mp gone
    obtain ⟨label, block, here, inst, member, named, op, _⟩ := mem_overflowBits wellFormed listed
    exact ⟨label, block, here, inst, member, named, op⟩
  have kept (label : Label) : ((withoutBits F (removedBits F removable)).block? label).isSome = (F.block? label).isSome := by
    rw [withoutBits_block, Option.isSome_map]
  refine ⟨rfl, ?_, ?_, ?_, ?_, fun id gone => by simp [folded, gone], ?_⟩
  · exact (kept F.entry).trans wellFormed.rooted
  · intro label after there target edge
    rw [withoutBits_block] at there
    obtain ⟨before, here, rfl⟩ := Option.map_eq_some_iff.mp there
    rw [kept]
    exact wellFormed.closed _ (Assoc.mem_of_lookup here) target (by simpa [BasicBlock.withoutBits, BasicBlock.subst] using edge)
  · intro label after there
    rw [withoutBits_block] at there
    obtain ⟨before, here, rfl⟩ := Option.map_eq_some_iff.mp there
    refine ⟨before, here, ?_, rfl, ?_⟩
    · refine List.forall₂_map_right_iff.mpr (List.forall₂_same.mpr fun phi _ => ⟨rfl, fun pred _ => ?_⟩)
      exact Phi.lookup_subst _ phi pred
    · rw [straightened_nil]
      rfl
  · intro id known label after there defined
    rw [withoutBits_block] at there
    obtain ⟨before, here, rfl⟩ := Option.map_eq_some_iff.mp there
    obtain ⟨home, block, found, inst, member, rfl, _⟩ := bit (folded_isSome.mp known)
    rcases List.mem_append.mp defined with phi | inside
    · have phi : inst.id ∈ before.phis.map Phi.id := by
        simpa [BasicBlock.withoutBits, BasicBlock.subst, Phi.subst, Function.comp_def] using phi
      exact wellFormed.inst_not_phi found here member phi
    · obtain ⟨other, left, named⟩ := List.mem_map.mp inside
      obtain ⟨original, survives, rfl⟩ := List.mem_map.mp left
      have away := of_decide_eq_true (List.mem_filter.mp survives).2
      exact away (named ▸ folded_isSome.mp known)
  · intro id gone label before here
    obtain ⟨home, block, found, inst, member, rfl, op⟩ := bit gone
    refine ⟨wellFormed.inst_not_phi found here member, fun twin listed same => ?_⟩
    rw [wellFormed.same_inst found here member listed same, op]
    rfl

end
end RoboticsRt.Ubsan

import RoboticsRt.Proofs.OverflowBits

/-! The passes only take away: blocks go, instructions go, and operands of those that stay give
way to `false` or to poison. What no instruction of a function does, no instruction does that
any pass leaves of it. -/

namespace RoboticsRt.Ubsan
open Llvm

structure InstLeft (after before : Inst) : Prop where
  id : after.id = before.id
  op : after.op = before.op
  operands : ∀ operand ∈ after.operands,
    operand ∈ before.operands ∨ operand = .const .poison ∨ operand = .const (.bool false)

structure BlockLeft (after before : Label × BasicBlock) : Prop where
  label : after.1 = before.1
  insts : List.SublistForall₂ InstLeft after.2.insts before.2.insts

/-- `G` is what is left of `F`. -/
structure Shrinks (F G : Function) : Prop where
  sret : G.sret = F.sret
  blocks : List.SublistForall₂ BlockLeft G.blocks F.blocks

instance : Std.Refl InstLeft where
  refl _ := ⟨rfl, rfl, fun _ member => .inl member⟩

instance : IsTrans Inst InstLeft where
  trans _ _ _ left earlier := by
    refine ⟨left.id.trans earlier.id, left.op.trans earlier.op, fun operand member => ?_⟩
    rcases left.operands operand member with kept | fixed
    · exact earlier.operands operand kept
    · exact .inr fixed

instance : Std.Refl BlockLeft where
  refl _ := ⟨rfl, Std.Refl.refl _⟩

instance : IsTrans (Label × BasicBlock) BlockLeft where
  trans _ _ _ left earlier := ⟨left.label.trans earlier.label, IsTrans.trans _ _ _ left.insts earlier.insts⟩

section
variable {F G H : Function}

theorem Shrinks.refl (F : Function) : Shrinks F F := ⟨rfl, Std.Refl.refl _⟩

theorem Shrinks.trans (first : Shrinks F G) (second : Shrinks G H) : Shrinks F H :=
  ⟨second.sret.trans first.sret, IsTrans.trans _ _ _ second.blocks first.blocks⟩

/-! What is left of what was there. -/

theorem Shrinks.labels (shrinks : Shrinks F G) : G.labels.Sublist F.labels := by
  simp only [Function.labels, List.map_eq_flatMap]
  exact Thinned.flatMap_sublist shrinks.blocks fun after before left => by rw [left.label]

/-- Whatever is listed of each instruction. -/
theorem Shrinks.listed {β : Type} (shrinks : Shrinks F G) {list list' : Inst → List β}
    (kept : ∀ after before, InstLeft after before → (list after).Sublist (list' before)) :
    (G.blocks.flatMap fun block => block.2.insts.flatMap list).Sublist
      (F.blocks.flatMap fun block => block.2.insts.flatMap list') :=
  Thinned.flatMap_sublist shrinks.blocks fun _ _ left => Thinned.flatMap_sublist left.insts kept

theorem collect_eq_flatMap (test : Inst → Bool) :
    collect F test = F.blocks.flatMap fun block => block.2.insts.flatMap fun inst => if test inst then [inst.id] else [] := by
  refine List.flatMap_congr fun block _ => ?_
  dsimp only
  induction block.2.insts with
  | nil => rfl
  | cons inst rest ih =>
    rw [List.flatMap_cons, ← ih]
    by_cases holds : test inst <;> simp [holds]

theorem Shrinks.collect (shrinks : Shrinks F G) {test test' : Inst → Bool}
    (kept : ∀ after before, InstLeft after before → test after = true → test' before = true) :
    (collect G test).Sublist (Ubsan.collect F test') := by
  rw [collect_eq_flatMap, collect_eq_flatMap]
  refine shrinks.listed fun after before left => ?_
  by_cases holds : test after
  · rw [if_pos holds, if_pos (kept after before left holds), left.id]
  · rw [if_neg holds]
    exact List.nil_sublist _

/-! The edits. -/

theorem instLeft_subst {values : Subst} (harmless : ∀ id value, values id = some value → value = .poison ∨ value = .bool false)
    (inst : Inst) : InstLeft (inst.subst values) inst := by
  refine ⟨rfl, rfl, fun operand member => ?_⟩
  obtain ⟨original, listed, rfl⟩ := List.mem_map.mp member
  cases original with
  | const _ => exact .inl listed
  | arg _ => exact .inl listed
  | inst id =>
    cases known : values id with
    | none => exact .inl (by simpa [Llvm.Operand.subst, known] using listed)
    | some value =>
      rcases harmless id value known with rfl | rfl
      · exact .inr (.inl (by simp [Llvm.Operand.subst, known]))
      · exact .inr (.inr (by simp [Llvm.Operand.subst, known]))

theorem shrinks_mapBlocks {change : Label → BasicBlock → BasicBlock}
    (each : ∀ label block, List.SublistForall₂ InstLeft (change label block).insts block.insts) :
    Shrinks F (F.mapBlocks change) :=
  ⟨rfl, Thinned.map_left (fun block => ⟨rfl, each block.1 block.2⟩) F.blocks⟩

theorem shrinks_replaceAllUsesWith (ids : List Id) {value : Val} (harmless : value = .poison ∨ value = .bool false) :
    Shrinks F (F.replaceAllUsesWith ids value) := by
  refine shrinks_mapBlocks fun _ block => Thinned.map_left (instLeft_subst fun id found same => ?_) _
  obtain ⟨_, same⟩ := Option.ite_none_right_eq_some.mp same
  cases same
  exact harmless

theorem shrinks_eraseInst (id : Id) : Shrinks F (F.eraseInst id) :=
  shrinks_mapBlocks fun _ _ => List.filter_sublist.sublistForall₂

theorem shrinks_replaceBranch (label target : Label) : Shrinks F (F.replaceBranch label target) := by
  refine shrinks_mapBlocks fun here block => ?_
  split <;> exact Std.Refl.refl _

theorem shrinks_removed (dead : Label) : Shrinks F { F with blocks := F.blocks.filter (·.1 != dead) } :=
  ⟨rfl, List.filter_sublist.sublistForall₂⟩

theorem shrinks_deleteDeadBlock (dead : Label) : Shrinks F (F.deleteDeadBlock dead) := by
  unfold Function.deleteDeadBlock
  split
  · exact .refl F
  next gone _ =>
    have forgotten : Shrinks F (F.mapBlocks fun here block =>
        if here ∈ gone.term.successors then block.removePredecessor dead else block) := by
      refine shrinks_mapBlocks fun here block => ?_
      split <;> exact Std.Refl.refl _
    dsimp only
    exact (forgotten.trans (shrinks_removed dead)).trans (shrinks_replaceAllUsesWith _ (.inl rfl))

theorem shrinks_straightenBranch (label : Label) : Shrinks F (straightenBranch F label) := by
  unfold straightenBranch
  split
  · exact .refl F
  next handlerBB contBB _ =>
    dsimp only
    split
    · exact (shrinks_replaceBranch label contBB).trans (shrinks_deleteDeadBlock handlerBB)
    · exact shrinks_replaceBranch label contBB

/-! The passes. -/

theorem shrinks_straightenOverflowBranches (ran : straightenOverflowBranches F = some G) : Shrinks F G := by
  have each : ∀ check ∈ collectOverflowInstructions F, ∀ before after, Shrinks F before →
      straightenOverflowBranch before check = some after → Shrinks F after := by
    intro check _ before after shrinks step
    obtain ⟨label, _, rfl⟩ := Option.map_eq_some_iff.mp step
    exact shrinks.trans (shrinks_straightenBranch label)
  exact Worklist.foldlM_keeps each (.refl F) ran

theorem shrinks_optimizeSretNullChecks (ran : optimizeSretNullChecks F = some G) : Shrinks F G := by
  have each : ∀ check ∈ nullChecks F, ∀ before after, Shrinks F before →
      optimizeSretNullCheck before check = some after → Shrinks F after := by
    intro check _ before after shrinks step
    obtain ⟨label, _, _, rfl⟩ := optimizeSretNullCheck_eq_some.mp step
    have straight := shrinks.trans (shrinks_straightenBranch label)
    exact (straight.trans (shrinks_replaceAllUsesWith _ (.inr rfl))).trans (shrinks_eraseInst check)
  exact Worklist.foldlM_keeps each (.refl F) ran

theorem shrinks_withoutBits (bits : List Id) : Shrinks F (withoutBits F bits) := by
  refine shrinks_mapBlocks fun _ block => ?_
  have kept : List.SublistForall₂ InstLeft (block.insts.filter (·.id ∉ bits)) block.insts :=
    List.filter_sublist.sublistForall₂
  refine IsTrans.trans _ _ _ (Thinned.map_left (instLeft_subst fun id value same => ?_) _) kept
  obtain ⟨_, same⟩ := Option.ite_none_right_eq_some.mp same
  cases same
  exact .inr rfl

end
end RoboticsRt.Ubsan

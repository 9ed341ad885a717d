import RoboticsRt.Library.Llvm.Ssa
import RoboticsRt.Proofs.Straighten

/-! What the passes leave of a function. Both run the same rewriting over a worklist of
checks: branches are straightened, unreachable handlers go, and a pass that proved a check
false also puts `false` for it and erases it. -/

namespace RoboticsRt.Ubsan
open Llvm

/-- A block with a check from the list in it. -/
def checked (F : Function) (checks : List Id) (label : Label) : Bool :=
  (F.block? label).any fun block => block.insts.any fun inst => checks.contains inst.id

/-- The continue block, for blocks whose branch is rewritten to jump there. -/
def straightened (F : Function) (checks : List Id) (label : Label) : Option Label :=
  if checked F checks label then (guard F label).map Prod.snd else none

/-- A PHI node keeps its name, and its value from every predecessor that is left. -/
structure PhiRewritten (G : Function) (values : Subst) (before after : Phi) : Prop where
  id : after.id = before.id
  incoming : ∀ pred, (G.block? pred).isSome →
    after.incoming.lookup pred = (before.incoming.lookup pred).map (Operand.subst values)

/-- `erased` checks are gone and `values` stand for names that nothing defines any more. -/
structure BlockRewritten (F G : Function) (checks erased : List Id) (values : Subst) (label : Label)
    (before after : BasicBlock) : Prop where
  phis : List.Forall₂ (PhiRewritten G values) before.phis after.phis
  insts : after.insts = (before.insts.filter (·.id ∉ erased)).map (Inst.subst values)
  term : after.term = match straightened F checks label with
    | some target => .br target
    | none => before.term.subst values

structure Rewritten (F : Function) (checks erased : List Id) (values : Subst) (G : Function) : Prop where
  entry : G.entry = F.entry
  rooted : (G.block? G.entry).isSome
  closed : ∀ label after, G.block? label = some after → ∀ target ∈ after.term.successors, (G.block? target).isSome
  block : ∀ label after, G.block? label = some after →
    ∃ before, F.block? label = some before ∧ BlockRewritten F G checks erased values label before after
  gone : ∀ id, (values id).isSome → ∀ label after, G.block? label = some after → id ∉ after.defs
  folded : ∀ id ∈ erased, values id = some (.bool false)
  inert : ∀ id ∈ erased, ∀ label before, F.block? label = some before →
    id ∉ before.phis.map Phi.id ∧ ∀ inst ∈ before.insts, inst.id = id → isUBSanSite inst.op = false

theorem checked_iff {F : Function} {checks : List Id} {label : Label} : checked F checks label = true ↔
    ∃ block, F.block? label = some block ∧ ∃ inst ∈ block.insts, inst.id ∈ checks := by
  simp [checked, Option.any_eq_true]

theorem straightened_branch {F : Function} {checks : List Id} {label cont : Label}
    (straight : straightened F checks label = some cont) :
    ∃ block cond ifTrue ifFalse, F.block? label = some block ∧ block.term = .condBr cond ifTrue ifFalse ∧
      (cont = ifTrue ∨ cont = ifFalse) := by
  simp only [straightened, Option.ite_none_right_eq_some, Option.map_eq_some_iff] at straight
  obtain ⟨_, ⟨handler, _⟩, guarded, rfl⟩ := straight
  obtain ⟨block, cond, ifTrue, ifFalse, found, term, ⟨_, cont⟩ | ⟨_, cont⟩⟩ := guard_branch guarded
  · exact ⟨block, cond, ifTrue, ifFalse, found, term, .inr cont⟩
  · exact ⟨block, cond, ifTrue, ifFalse, found, term, .inl cont⟩

theorem straightened_successor {F : Function} {checks : List Id} {label cont : Label} {block : BasicBlock}
    (here : F.block? label = some block) (straight : straightened F checks label = some cont) :
    cont ∈ block.term.successors := by
  obtain ⟨block', cond, ifTrue, ifFalse, found, term, either⟩ := straightened_branch straight
  rw [here] at found
  cases found
  rw [term]
  rcases either with rfl | rfl <;> simp [Terminator.successors]

/-! One check at a time. -/

section
variable {F G : Function} {checks erased : List Id} {values : Subst} {label : Label} {before after : BasicBlock}

theorem BlockRewritten.phi_ids (rewritten : BlockRewritten F G checks erased values label before after) :
    after.phis.map Phi.id = before.phis.map Phi.id := by
  have related := rewritten.phis
  generalize before.phis = first, after.phis = second at related
  induction related with
  | nil => rfl
  | cons same _ ih => simp [same.id, ih]

theorem BlockRewritten.defs (rewritten : BlockRewritten F G checks erased values label before after)
    {id : Id} (member : id ∈ after.defs) : id ∈ before.defs := by
  rw [BasicBlock.defs, rewritten.phi_ids, rewritten.insts] at member
  rcases List.mem_append.mp member with phi | inst
  · exact List.mem_append_left _ phi
  · obtain ⟨inst, kept, rfl⟩ := by simpa [Inst.subst] using inst
    exact List.mem_append_right _ (List.mem_map_of_mem kept.1)

theorem BlockRewritten.successors (rewritten : BlockRewritten F G checks erased values label before after)
    (here : F.block? label = some before) {target : Label} (edge : target ∈ after.term.successors) :
    target ∈ before.term.successors := by
  rw [rewritten.term] at edge
  cases straight : straightened F checks label with
  | none => simpa [straight] using edge
  | some cont =>
    rw [straight] at edge
    cases List.mem_singleton.mp edge
    exact straightened_successor here straight

theorem PhiRewritten.fewer {G' : Function} {p q : Phi} (rewritten : PhiRewritten G values p q)
    (fewer : ∀ label, (G'.block? label).isSome → (G.block? label).isSome) : PhiRewritten G' values p q where
  id := rewritten.id
  incoming pred kept := rewritten.incoming pred (fewer pred kept)

theorem PhiRewritten.subst {p q : Phi} (rewritten : PhiRewritten G values p q) (more : Subst) :
    PhiRewritten G (values.andThen more) p (q.subst more) where
  id := rewritten.id
  incoming pred kept := by
    rw [Phi.lookup_subst, rewritten.incoming pred kept, Option.map_map]
    exact congrArg (Option.map · _) (funext (Operand.subst_subst values more))

theorem PhiRewritten.removeIncomingValue {p q : Phi} (rewritten : PhiRewritten G values p q) {dead : Label}
    (deleted : ∀ label, (G.block? label).isSome → label ≠ dead) :
    PhiRewritten G values p (q.removeIncomingValue dead) where
  id := rewritten.id
  incoming pred kept := by
    rw [Phi.lookup_removeIncomingValue q (deleted pred kept)]
    exact rewritten.incoming pred kept

theorem BlockRewritten.fewer {G' : Function} (rewritten : BlockRewritten F G checks erased values label before after)
    (fewer : ∀ label, (G'.block? label).isSome → (G.block? label).isSome) :
    BlockRewritten F G' checks erased values label before after where
  phis := rewritten.phis.imp fun _ _ same => same.fewer fewer
  insts := rewritten.insts
  term := rewritten.term

theorem BlockRewritten.subst (rewritten : BlockRewritten F G checks erased values label before after) (more : Subst) :
    BlockRewritten F G checks erased (values.andThen more) label before (after.subst more) where
  phis := List.forall₂_map_right_iff.mpr (rewritten.phis.imp fun _ _ same => same.subst more)
  insts := by
    rw [BasicBlock.subst, rewritten.insts, List.map_map]
    exact congrArg (List.map · _) (funext (Inst.subst_subst values more))
  term := by
    rw [BasicBlock.subst, rewritten.term]
    cases straightened F checks label with
    | none => exact Terminator.subst_subst values more before.term
    | some target => rfl

theorem BlockRewritten.removePredecessor (rewritten : BlockRewritten F G checks erased values label before after)
    {dead : Label} (deleted : ∀ label, (G.block? label).isSome → label ≠ dead) :
    BlockRewritten F G checks erased values label before (after.removePredecessor dead) where
  phis := List.forall₂_map_right_iff.mpr (rewritten.phis.imp fun _ _ same => same.removeIncomingValue deleted)
  insts := rewritten.insts
  term := rewritten.term

theorem Rewritten.same_handlers (rewritten : Rewritten F checks erased values G) {label : Label}
    (here : (G.block? label).isSome) : isHandler G label = isHandler F label := by
  obtain ⟨after, found⟩ := Option.isSome_iff_exists.mp here
  obtain ⟨before, earlier, block⟩ := rewritten.block label after found
  simp only [isHandler, found, earlier, Option.any_some, hasUBSanSite, block.insts, List.any_map]
  rw [Bool.eq_iff_iff, List.any_eq_true, List.any_eq_true]
  constructor
  · intro ⟨inst, member, site⟩
    exact ⟨inst, List.mem_of_mem_filter member, site⟩
  · intro ⟨inst, member, site⟩
    refine ⟨inst, List.mem_filter.mpr ⟨member, decide_eq_true fun gone => ?_⟩, site⟩
    have quiet := (rewritten.inert _ gone label before earlier).2 inst member rfl
    rw [site] at quiet
    cases quiet

theorem Rewritten.guard_eq (rewritten : Rewritten F checks erased values G) (found : G.block? label = some after) :
    guard G label = if checked F checks label then none else guard F label := by
  obtain ⟨before, earlier, block⟩ := rewritten.block label after found
  have same : straightened F checks label = none → guard G label = guard F label := by
    intro untouched
    have term : after.term = before.term.subst values := by rw [block.term, untouched]
    have handlers : ∀ target ∈ before.term.successors, isHandler G target = isHandler F target := by
      intro target edge
      exact rewritten.same_handlers (rewritten.closed label after found target (by simpa [term] using edge))
    simp only [guard, found, earlier, Option.map_some, term]
    cases ends : before.term with
    | condBr cond ifTrue ifFalse =>
      rw [ends] at handlers
      simp [Terminator.subst, handlers ifTrue (by simp [Terminator.successors]),
        handlers ifFalse (by simp [Terminator.successors])]
    | _ => rfl
  cases straight : straightened F checks label with
  | none =>
    rw [same straight]
    simp only [straightened, ite_eq_right_iff, Option.map_eq_none_iff] at straight
    split
    · next checked => exact straight checked
    · rfl
  | some cont =>
    have checked : checked F checks label = true := by
      by_contra unchecked
      simp [straightened, unchecked] at straight
    have term : after.term = .br cont := by rw [block.term, straight]
    simp [guard, found, term, checked]

theorem straightened_append (wellFormed : WellFormed F) {check : Id} (found : F.block? label = some before)
    {inst : Inst} (member : inst ∈ before.insts) (named : inst.id = check) (other : Label) :
    straightened F (checks ++ [check]) other =
      if other = label then (guard F label).map Prod.snd else straightened F checks other := by
  by_cases same : other = label
  · subst same
    have checked : checked F (checks ++ [check]) other = true :=
      checked_iff.mpr ⟨before, found, inst, member, by simp [named]⟩
    simp [straightened, checked]
  · have checked : checked F (checks ++ [check]) other = checked F checks other := by
      rw [Bool.eq_iff_iff, checked_iff, checked_iff]
      constructor
      · intro ⟨block, here, instr, listed, check⟩
        refine ⟨block, here, instr, listed, (List.mem_append.mp check).resolve_right fun last => same ?_⟩
        have twin : instr.id = inst.id := by rw [named]; exact List.mem_singleton.mp last
        exact wellFormed.same_label here found (BasicBlock.inst_def listed) (twin ▸ BasicBlock.inst_def member)
      · intro ⟨block, here, instr, listed, check⟩
        exact ⟨block, here, instr, listed, List.mem_append_left _ check⟩
    simp [straightened, checked, same]

theorem Rewritten.unguarded (rewritten : Rewritten F checks erased values G) (wellFormed : WellFormed F)
    {check : Id} (found : G.block? label = some after) (here : F.block? label = some before) {inst : Inst}
    (member : inst ∈ before.insts) (named : inst.id = check) (unguarded : guard G label = none) :
    Rewritten F (checks ++ [check]) erased values G := by
  refine { rewritten with block := fun other after there => ?_ }
  obtain ⟨before, earlier, block⟩ := rewritten.block other after there
  refine ⟨before, earlier, { block with term := ?_ }⟩
  have kept : straightened F (checks ++ [check]) other = straightened F checks other := by
    rw [straightened_append wellFormed here member named]
    by_cases same : other = label
    · subst same
      rw [rewritten.guard_eq found] at unguarded
      by_cases checked : checked F checks other
      · simp [straightened, checked]
      · rw [if_neg checked] at unguarded
        simp [straightened, unguarded]
    · rw [if_neg same]
  rw [block.term, kept]

theorem Rewritten.replaceBranch (rewritten : Rewritten F checks erased values G) (wellFormed : WellFormed F)
    {check : Id} (found : G.block? label = some after) (here : F.block? label = some before) {inst : Inst}
    (member : inst ∈ before.insts) (named : inst.id = check) {handler cont : Label}
    (guarded : guard G label = some (handler, cont)) :
    Rewritten F (checks ++ [check]) erased values (G.replaceBranch label cont) := by
  have original : guard F label = some (handler, cont) := by
    rw [rewritten.guard_eq found, Option.ite_none_left_eq_some] at guarded
    exact guarded.2
  have labels : ∀ other, ((G.replaceBranch label cont).block? other).isSome = (G.block? other).isSome := by
    simp [Function.replaceBranch]
  have shape : ∀ other after', (G.replaceBranch label cont).block? other = some after' →
      ∃ after, G.block? other = some after ∧
        after' = if other = label then { after with term := .br cont } else after := by
    intro other after' there
    rw [Function.replaceBranch, Function.block?_mapBlocks] at there
    obtain ⟨after, earlier, rfl⟩ := Option.map_eq_some_iff.mp there
    exact ⟨after, earlier, rfl⟩
  refine ⟨rewritten.entry, ?_, ?_, ?_, ?_, rewritten.folded, rewritten.inert⟩
  · rw [labels]
    exact rewritten.rooted
  · intro other after' there target edge
    rw [labels]
    obtain ⟨after, earlier, rfl⟩ := shape other after' there
    split at edge
    · cases List.mem_singleton.mp edge
      obtain ⟨block, guarded, _, successor⟩ := guard_successors guarded
      exact rewritten.closed label block guarded cont successor
    · exact rewritten.closed other after earlier target edge
  · intro other after' there
    obtain ⟨after, earlier, rfl⟩ := shape other after' there
    obtain ⟨before, original', block⟩ := rewritten.block other after earlier
    refine ⟨before, original', ?_, ?_, ?_⟩
    · have phis := block.phis.imp fun p q same => same.fewer fun pred kept => (labels pred) ▸ kept
      split <;> exact phis
    · split <;> exact block.insts
    · rw [straightened_append wellFormed here member named]
      by_cases same : other = label
      · simp [same, original]
      · simp only [if_neg same]
        exact block.term
  · intro id known other after' there defined
    obtain ⟨after, earlier, rfl⟩ := shape other after' there
    apply rewritten.gone id known other after earlier
    split at defined <;> exact defined

theorem Rewritten.deleteDeadBlock (rewritten : Rewritten F checks erased values G) (wellFormed : WellFormed F)
    {dead : Label} (found : G.block? dead = some after) (unreached : G.predEmpty dead) (inner : dead ≠ F.entry) :
    ∃ values, Rewritten F checks erased values (G.deleteDeadBlock dead) := by
  let poisoned : Subst := fun id => if id ∈ after.defs then some .poison else none
  have labels : ∀ other, ((G.deleteDeadBlock dead).block? other).isSome ↔ other ≠ dead ∧ (G.block? other).isSome := by
    intro other
    rw [Function.block?_deleteDeadBlock found]
    by_cases same : other = dead <;> simp [same]
  have shape : ∀ other final, (G.deleteDeadBlock dead).block? other = some final → other ≠ dead ∧
      ∃ kept, G.block? other = some kept ∧ final = BasicBlock.subst poisoned
        (if other ∈ after.term.successors then kept.removePredecessor dead else kept) := by
    intro other final there
    rw [Function.block?_deleteDeadBlock found, Option.ite_none_left_eq_some] at there
    obtain ⟨kept, earlier, rfl⟩ := Option.map_eq_some_iff.mp there.2
    exact ⟨there.1, kept, earlier, rfl⟩
  have entry : (G.deleteDeadBlock dead).entry = G.entry := by
    unfold Function.deleteDeadBlock
    rw [found]
    rfl
  refine ⟨values.andThen poisoned, entry.trans rewritten.entry, ?_, ?_, ?_, ?_, ?_, rewritten.inert⟩
  · rw [entry, labels]
    exact ⟨fun same => inner (same ▸ rewritten.entry), rewritten.rooted⟩
  · intro other final there target edge
    obtain ⟨_, kept, earlier, rfl⟩ := shape other final there
    have successor : target ∈ kept.term.successors := by
      simp only [BasicBlock.subst, Terminator.successors_subst] at edge
      split at edge <;> exact edge
    refine (labels target).mpr ⟨?_, rewritten.closed other kept earlier target successor⟩
    rintro rfl
    exact Function.predEmpty_iff.mp unreached other kept earlier successor
  · intro other final there
    obtain ⟨_, kept, earlier, rfl⟩ := shape other final there
    obtain ⟨before, original, block⟩ := rewritten.block other kept earlier
    have fewer := block.fewer fun label kept => ((labels label).mp kept).2
    refine ⟨before, original, BlockRewritten.subst ?_ poisoned⟩
    split
    · exact fewer.removePredecessor fun label kept => ((labels label).mp kept).1
    · exact fewer
  · intro id known other final there defined
    obtain ⟨differs, kept, earlier, rfl⟩ := shape other final there
    have member : id ∈ kept.defs := by
      rw [BasicBlock.defs_subst] at defined
      split at defined
      · simpa using defined
      · exact defined
    cases old : values id with
    | some value => exact rewritten.gone id (by simp [old]) other kept earlier member
    | none =>
      have forgotten : id ∈ after.defs := by simpa [Subst.andThen, old, poisoned] using known
      obtain ⟨before, original, block⟩ := rewritten.block other kept earlier
      obtain ⟨before', original', block'⟩ := rewritten.block dead after found
      exact differs (wellFormed.same_label original original' (block.defs member) (block'.defs forgotten))
  · intro id gone
    simp [Subst.andThen, rewritten.folded id gone]

theorem Rewritten.straighten (rewritten : Rewritten F checks erased values G) (wellFormed : WellFormed F)
    {check : Id} (sits : G.parent check = some label) {H : Function} (straight : Straightens G label H) :
    ∃ values, Rewritten F (checks ++ [check]) erased values H := by
  obtain ⟨after, found, inst, member, named⟩ := Function.parent_block sits
  obtain ⟨before, here, block⟩ := rewritten.block label after found
  obtain ⟨original, listed, renamed⟩ : ∃ inst ∈ before.insts, inst.id = check := by
    rw [block.insts] at member
    obtain ⟨original, kept, rfl⟩ := List.mem_map.mp member
    exact ⟨original, List.mem_of_mem_filter kept, named⟩
  cases straight with
  | unguarded none => exact ⟨values, rewritten.unguarded wellFormed found here listed renamed none⟩
  | rewired guarded _ => exact ⟨values, rewritten.replaceBranch wellFormed found here listed renamed guarded⟩
  | removed guarded last =>
    have straight := rewritten.replaceBranch wellFormed found here listed renamed guarded
    obtain ⟨dead, there⟩ := rewired_handler guarded
    apply straight.deleteDeadBlock wellFormed there ((predEmpty_rewired guarded).mpr last)
    rintro rfl
    obtain ⟨block', found', handler', _⟩ := guard_successors guarded
    obtain ⟨source, entry, edge⟩ := rewritten.block label block' found'
    exact Function.predEmpty_iff.mp wellFormed.entry label source entry (edge.successors entry handler')

theorem Rewritten.fold (rewritten : Rewritten F checks erased values G) (wellFormed : WellFormed F)
    {check : Id} (sits : G.parent check = some label) {home : Label} (here : F.block? home = some before)
    {inst : Inst} (member : inst ∈ before.insts) (named : inst.id = check) (quiet : isUBSanSite inst.op = false) :
    ∃ values, Rewritten F checks (erased ++ [check]) values
      ((G.replaceAllUsesWith [check] (.bool false)).eraseInst check) := by
  let false_ : Subst := fun id => if id ∈ [check] then some (.bool false) else none
  have shape : ∀ other, ((G.replaceAllUsesWith [check] (.bool false)).eraseInst check).block? other =
      (G.block? other).map fun after => (after.subst false_).eraseInst check := by
    intro other
    rw [Function.eraseInst, Function.block?_mapBlocks, Function.replaceAllUsesWith, Function.block?_mapBlocks,
      Option.map_map]
    rfl
  have labels : ∀ other, (((G.replaceAllUsesWith [check] (.bool false)).eraseInst check).block? other).isSome =
      (G.block? other).isSome := by
    intro other
    rw [shape, Option.isSome_map]
  have fresh : values check = none := by
    obtain ⟨after, found, twin, defined, same⟩ := Function.parent_block sits
    by_contra known
    exact rewritten.gone check (Option.isSome_iff_ne_none.mpr known) label after found (same ▸ BasicBlock.inst_def defined)
  refine ⟨values.andThen false_, rewritten.entry, ?_, ?_, ?_, ?_, ?_, ?_⟩
  · rw [labels]
    exact rewritten.rooted
  · intro other final there target edge
    rw [shape] at there
    obtain ⟨after, earlier, rfl⟩ := Option.map_eq_some_iff.mp there
    rw [labels]
    exact rewritten.closed other after earlier target (by simpa [BasicBlock.eraseInst, BasicBlock.subst] using edge)
  · intro other final there
    rw [shape] at there
    obtain ⟨after, earlier, rfl⟩ := Option.map_eq_some_iff.mp there
    obtain ⟨before, original, block⟩ := rewritten.block other after earlier
    have replaced := (block.fewer fun label kept => labels label ▸ kept).subst false_
    refine ⟨before, original, replaced.phis, ?_, replaced.term⟩
    rw [BasicBlock.eraseInst, replaced.insts, List.filter_map, List.filter_filter]
    refine congrArg (List.map _) (List.filter_congr fun inst _ => ?_)
    rw [Bool.eq_iff_iff]
    simp [Inst.subst, and_comm]
  · intro id known other final there defined
    rw [shape] at there
    obtain ⟨after, earlier, rfl⟩ := Option.map_eq_some_iff.mp there
    obtain ⟨kept, onlyPhi⟩ := BasicBlock.mem_defs_eraseInst defined
    rw [BasicBlock.defs_subst] at kept
    cases old : values id with
    | some value => exact rewritten.gone id (by simp [old]) other after earlier kept
    | none =>
      have same : id = check := by simpa [Subst.andThen, old, false_] using known
      obtain ⟨before', original, block⟩ := rewritten.block other after earlier
      have phi := onlyPhi same
      rw [(block.subst false_).phi_ids, same, ← named] at phi
      exact wellFormed.inst_not_phi here original member phi
  · intro id gone
    rcases List.mem_append.mp gone with old | new
    · simp [Subst.andThen, rewritten.folded id old]
    · simp [Subst.andThen, List.mem_singleton.mp new, fresh, false_]
  · intro id gone other before' original
    rcases List.mem_append.mp gone with old | new
    · exact rewritten.inert id old other before' original
    · cases List.mem_singleton.mp new
      constructor
      · rw [← named]
        exact wellFormed.inst_not_phi here original member
      · intro twin listed same
        rw [wellFormed.same_inst here original member listed (same.trans named.symm)]
        exact quiet

theorem nothing_rewritten (wellFormed : WellFormed F) : Rewritten F [] [] (fun _ => none) F where
  entry := rfl
  rooted := wellFormed.rooted
  closed _ _ found := wellFormed.closed _ (Assoc.mem_of_lookup found)
  block label before found := by
    refine ⟨before, found, ?_, ?_, ?_⟩
    · refine List.forall₂_same.mpr fun phi _ => ⟨rfl, fun pred _ => ?_⟩
      simp [funext Operand.subst_none]
    · simp [funext Inst.subst_none]
    · have unchecked : straightened F [] label = none := by
        simp [straightened, checked, Option.any_eq_true]
      rw [unchecked]
      exact (Terminator.subst_none before.term).symm
  gone id known := by cases known
  folded id gone := by cases gone
  inert id gone := by cases gone

/-- The overflow checks of the clone, one after another. -/
theorem straightenOverflowBranches_rewritten (wellFormed : WellFormed F)
    (ran : straightenOverflowBranches F = some G) :
    ∃ values, Rewritten F (collectOverflowInstructions F) [] values G := by
  have start : ∃ values, Rewritten F [] [] values F := ⟨_, nothing_rewritten wellFormed⟩
  have each : ∀ check ∈ collectOverflowInstructions F, ∀ done before after,
      (∃ values, Rewritten F done [] values before) → straightenOverflowBranch before check = some after →
      ∃ values, Rewritten F (done ++ [check]) [] values after := by
    intro check _ done before after ⟨values, rewritten⟩ step
    obtain ⟨label, sits, rfl⟩ := Option.map_eq_some_iff.mp step
    exact rewritten.straighten wellFormed sits (straightenBranch_cases before label)
  exact Worklist.foldlM_done each start ran

theorem mem_collect {test : Inst → Bool} {id : Id} (listed : id ∈ collect F test) (wellFormed : WellFormed F) :
    ∃ label before, F.block? label = some before ∧ ∃ inst ∈ before.insts, inst.id = id ∧ test inst = true := by
  obtain ⟨⟨label, before⟩, member, found⟩ := List.mem_flatMap.mp listed
  obtain ⟨inst, kept, rfl⟩ := List.mem_map.mp found
  have lookup := Assoc.lookup_of_mem wellFormed.labels member
  exact ⟨label, before, lookup, inst, List.mem_of_mem_filter kept, rfl, (List.mem_filter.mp kept).2⟩

/-- A turn ends where the comparison is in the function when it is taken and when it is replaced. -/
theorem optimizeSretNullCheck_eq_some {check : Id} : optimizeSretNullCheck F check = some G ↔
    ∃ label, F.parent check = some label ∧ ((straightenHandlerBranch F label).parent check).isSome ∧
      G = ((straightenHandlerBranch F label).replaceAllUsesWith [check] (.bool false)).eraseInst check := by
  simp only [optimizeSretNullCheck, Option.bind_eq_bind, Option.bind_eq_some_iff, Option.pure_def, Option.some.injEq,
    Option.isSome_iff_exists, exists_and_right, @eq_comm Function G]

/-- The comparisons of sret arguments with null, one after another. -/
theorem optimizeSretNullChecks_rewritten (wellFormed : WellFormed F)
    (ran : optimizeSretNullChecks F = some G) :
    ∃ values, Rewritten F (nullChecks F) (nullChecks F) values G := by
  have start : ∃ values, Rewritten F [] [] values F := ⟨_, nothing_rewritten wellFormed⟩
  have each : ∀ check ∈ nullChecks F, ∀ done before after,
      (∃ values, Rewritten F done done values before) → optimizeSretNullCheck before check = some after →
      ∃ values, Rewritten F (done ++ [check]) (done ++ [check]) values after := by
    intro check listed done before after ⟨values, rewritten⟩ step
    obtain ⟨label, sits, still, rfl⟩ := optimizeSretNullCheck_eq_some.mp step
    obtain ⟨again, still⟩ := Option.isSome_iff_exists.mp still
    obtain ⟨values, straight⟩ := rewritten.straighten wellFormed sits (straightenBranch_cases before label)
    obtain ⟨home, block, found, inst, member, named, test⟩ := mem_collect listed wellFormed
    have quiet : isUBSanSite inst.op = false := by
      simp only [Bool.and_eq_true, beq_iff_eq] at test
      rw [test.1]
      rfl
    exact straight.fold wellFormed still found member named quiet
  exact Worklist.foldlM_done each start ran

end
end RoboticsRt.Ubsan

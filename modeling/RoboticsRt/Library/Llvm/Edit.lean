import Mathlib.Data.Nat.Init
import RoboticsRt.Library.Lists
import RoboticsRt.Library.Llvm.Ir

/-! Queries and edits of functions as LLVM's utilities make them, and how an edit shows in
what is looked up and what is read. -/

namespace Llvm

def BasicBlock.defs (block : BasicBlock) : List Id := block.phis.map Phi.id ++ block.insts.map Inst.id

theorem BasicBlock.inst_def {block : BasicBlock} {inst : Inst} (member : inst ∈ block.insts) : inst.id ∈ block.defs :=
  List.mem_append_right _ (List.mem_map_of_mem member)

namespace Function

def labels (F : Function) : List Label := F.blocks.map Prod.fst

/-- The block an instruction sits in, unless it was freed. -/
def parent (F : Function) (id : Id) : Option Label :=
  F.labels.find? fun label => (F.block? label).any fun block => block.insts.any (·.id == id)

/-- `pred_empty`. -/
def predEmpty (F : Function) (label : Label) : Bool :=
  F.labels.all fun pred => (F.block? pred).all fun block => !block.term.successors.contains label

def mapBlocks (F : Function) (change : Label → BasicBlock → BasicBlock) : Function :=
  { F with blocks := F.blocks.map fun (label, block) => (label, change label block) }

end Function

/-! `replaceAllUsesWith`, for several values at once. -/

abbrev Subst := Id → Option Val

def Operand.subst (values : Subst) : Operand → Operand
  | .inst id => ((values id).map Operand.const).getD (.inst id)
  | operand => operand

def Inst.subst (values : Subst) (inst : Inst) : Inst :=
  { inst with operands := inst.operands.map (Operand.subst values) }

def Phi.subst (values : Subst) (phi : Phi) : Phi :=
  { phi with incoming := phi.incoming.map fun (pred, operand) => (pred, operand.subst values) }

def Phi.removeIncomingValue (pred : Label) (phi : Phi) : Phi :=
  { phi with incoming := phi.incoming.filter (·.1 != pred) }

def Terminator.subst (values : Subst) : Terminator → Terminator
  | .condBr cond ifTrue ifFalse => .condBr (cond.subst values) ifTrue ifFalse
  | .switch cond cases default => .switch (cond.subst values) cases default
  | .ret value => .ret (value.map (Operand.subst values))
  | term => term

def BasicBlock.subst (values : Subst) (block : BasicBlock) : BasicBlock where
  phis := block.phis.map (Phi.subst values)
  insts := block.insts.map (Inst.subst values)
  term := block.term.subst values

def BasicBlock.eraseInst (id : Id) (block : BasicBlock) : BasicBlock :=
  { block with insts := block.insts.filter (·.id != id) }

def BasicBlock.removePredecessor (pred : Label) (block : BasicBlock) : BasicBlock :=
  { block with phis := block.phis.map (Phi.removeIncomingValue pred) }

namespace Function

def replaceAllUsesWith (F : Function) (ids : List Id) (value : Val) : Function :=
  F.mapBlocks fun _ block => block.subst fun id => if id ∈ ids then some value else none

def eraseInst (F : Function) (id : Id) : Function :=
  F.mapBlocks fun _ block => block.eraseInst id

/-- `ReplaceInstWithInst`, for the branch at the end of a block. -/
def replaceBranch (F : Function) (label target : Label) : Function :=
  F.mapBlocks fun here block => if here = label then { block with term := .br target } else block

/-- Its successors forget the block, and what it computed becomes poison. A PHI node left
with one value to choose from stays here; LLVM puts that value in its place. -/
def deleteDeadBlock (F : Function) (label : Label) : Function :=
  match F.block? label with
  | none => F
  | some dead =>
    let forgotten := F.mapBlocks fun here block =>
      if here ∈ dead.term.successors then block.removePredecessor label else block
    { forgotten with blocks := forgotten.blocks.filter (·.1 != label) }.replaceAllUsesWith dead.defs .poison

end Function

/-! Lookups in the edited function. -/

namespace Function

theorem mem_labels {F : Function} {label : Label} {block : BasicBlock} (found : F.block? label = some block) :
    label ∈ F.labels := List.mem_map_of_mem (f := Prod.fst) (Assoc.mem_of_lookup found)

@[simp] theorem block?_mapBlocks (F : Function) (change : Label → BasicBlock → BasicBlock) (label : Label) :
    (F.mapBlocks change).block? label = (F.block? label).map (change label) :=
  Assoc.lookup_map F.blocks change label

@[simp] theorem labels_mapBlocks (F : Function) (change : Label → BasicBlock → BasicBlock) :
    (F.mapBlocks change).labels = F.labels := by
  simp [labels, mapBlocks, Function.comp_def]

theorem block?_deleteDeadBlock {F : Function} {dead : Label} {gone : BasicBlock} (found : F.block? dead = some gone)
    (label : Label) : (F.deleteDeadBlock dead).block? label = if label = dead then none else
      (F.block? label).map fun block =>
        BasicBlock.subst (fun id => if id ∈ gone.defs then some .poison else none)
          (if label ∈ gone.term.successors then block.removePredecessor dead else block) := by
  unfold deleteDeadBlock
  rw [found]
  simp only [replaceAllUsesWith, block?_mapBlocks]
  rw [block?, Assoc.lookup_remove]
  split
  · rfl
  · rw [← block?, block?_mapBlocks, Option.map_map]
    rfl

theorem predEmpty_iff {F : Function} {label : Label} : F.predEmpty label = true ↔
    ∀ pred block, F.block? pred = some block → label ∉ block.term.successors := by
  simp only [predEmpty, List.all_eq_true, Option.all_eq_true, Bool.not_eq_true', List.contains_eq_mem,
    decide_eq_false_iff_not]
  constructor
  · intro none pred block found
    exact none pred (mem_labels found) block found
  · intro none pred _ block found
    exact none pred block found

theorem parent_block {F : Function} {id : Id} {label : Label} (found : F.parent id = some label) :
    ∃ block, F.block? label = some block ∧ ∃ inst ∈ block.insts, inst.id = id := by
  have holds := List.find?_some found
  simpa [Option.any_eq_true] using holds

/-- The block has an instruction of that name. -/
def Sits (F : Function) (id : Id) (label : Label) : Prop :=
  ∃ block, F.block? label = some block ∧ id ∈ block.insts.map Inst.id

theorem parent_sits {F : Function} {id : Id} {label : Label} (found : F.parent id = some label) : F.Sits id label := by
  obtain ⟨block, here, inst, member, rfl⟩ := parent_block found
  exact ⟨block, here, List.mem_map_of_mem member⟩

theorem parent_isSome_iff {F : Function} {id : Id} : (F.parent id).isSome ↔ ∃ label, F.Sits id label := by
  constructor
  · intro found
    obtain ⟨label, found⟩ := Option.isSome_iff_exists.mp found
    exact ⟨label, parent_sits found⟩
  · rintro ⟨label, block, here, member⟩
    obtain ⟨inst, listed, rfl⟩ := List.mem_map.mp member
    rw [parent, List.find?_isSome]
    refine ⟨label, mem_labels here, ?_⟩
    rw [here, Option.any_some, List.any_eq_true]
    exact ⟨inst, listed, beq_self_eq_true _⟩

theorem sits_mapBlocks {F : Function} {change : Label → BasicBlock → BasicBlock}
    (same : ∀ label block, (change label block).insts.map Inst.id = block.insts.map Inst.id) {id : Id} {label : Label} :
    (F.mapBlocks change).Sits id label ↔ F.Sits id label := by
  simp only [Sits, block?_mapBlocks, Option.map_eq_some_iff]
  constructor
  · rintro ⟨_, ⟨block, here, rfl⟩, member⟩
    exact ⟨block, here, same label block ▸ member⟩
  · rintro ⟨block, here, member⟩
    exact ⟨_, ⟨block, here, rfl⟩, (same label block).symm ▸ member⟩

theorem sits_deleteDeadBlock {F : Function} {dead : Label} {gone : BasicBlock} (found : F.block? dead = some gone)
    {id : Id} {label : Label} : (F.deleteDeadBlock dead).Sits id label ↔ F.Sits id label ∧ label ≠ dead := by
  rw [Sits, block?_deleteDeadBlock found]
  by_cases same : label = dead
  · simp [same]
  · have kept : ∀ block : BasicBlock, (BasicBlock.subst (fun id => if id ∈ gone.defs then some .poison else none)
        (if label ∈ gone.term.successors then block.removePredecessor dead else block)).insts.map Inst.id =
        block.insts.map Inst.id := by
      intro block
      split <;> simp [BasicBlock.subst, BasicBlock.removePredecessor, Inst.subst, Function.comp_def]
    rw [if_neg same, and_iff_left same]
    constructor
    · rintro ⟨_, there, member⟩
      obtain ⟨block, here, rfl⟩ := Option.map_eq_some_iff.mp there
      exact ⟨block, here, kept block ▸ member⟩
    · rintro ⟨block, here, member⟩
      exact ⟨_, Option.map_eq_some_iff.mpr ⟨block, here, rfl⟩, (kept block).symm ▸ member⟩

theorem sits_eraseInst {F : Function} {erased id : Id} {label : Label} :
    (F.eraseInst erased).Sits id label ↔ F.Sits id label ∧ id ≠ erased := by
  simp only [Sits, eraseInst, block?_mapBlocks, Option.map_eq_some_iff, ↓existsAndEq, and_true,
    BasicBlock.eraseInst, List.mem_map, List.mem_filter, bne_iff_ne]
  constructor
  · rintro ⟨block, here, inst, ⟨member, other⟩, rfl⟩
    exact ⟨⟨block, here, inst, member, rfl⟩, other⟩
  · rintro ⟨⟨block, here, inst, member, rfl⟩, other⟩
    exact ⟨block, here, inst, ⟨member, other⟩, rfl⟩

end Function

/-! Substitutions. -/

/-- First one, then the other. -/
def Subst.andThen (first second : Subst) : Subst := fun id => (first id).or (second id)

theorem Operand.subst_subst (first second : Subst) (operand : Operand) :
    (operand.subst first).subst second = operand.subst (first.andThen second) := by
  cases operand with
  | const value => rfl
  | arg index => rfl
  | inst id => cases known : first id <;> simp [Operand.subst, Subst.andThen, known]

theorem Inst.subst_subst (first second : Subst) (inst : Inst) :
    (inst.subst first).subst second = inst.subst (first.andThen second) := by
  simp [Inst.subst, Operand.subst_subst]

theorem Terminator.subst_subst (first second : Subst) (term : Terminator) :
    (term.subst first).subst second = term.subst (first.andThen second) := by
  cases term <;> simp [Terminator.subst, Operand.subst_subst, Function.comp_def]

/-- What is a name after a substitution was that name before. -/
theorem Operand.subst_eq_inst {values : Subst} {operand : Operand} {id : Id} :
    operand.subst values = .inst id ↔ operand = .inst id ∧ values id = none := by
  cases operand with
  | const value => simp [Operand.subst]
  | arg index => simp [Operand.subst]
  | inst name =>
    cases known : values name with
    | none =>
      simp only [Operand.subst, known, Option.map_none, Option.getD_none, Operand.inst.injEq, iff_self_and]
      rintro rfl
      exact known
    | some value =>
      simp only [Operand.subst, known, Option.map_some, Option.getD_some, reduceCtorEq, Operand.inst.injEq, false_iff,
        not_and]
      rintro rfl
      simp [known]

theorem Terminator.operands_subst (values : Subst) (term : Terminator) :
    (term.subst values).operands = term.operands.map (Operand.subst values) := by
  cases term with
  | ret value => cases value <;> rfl
  | _ => rfl

theorem Operand.subst_none (operand : Operand) : operand.subst (fun _ => none) = operand := by
  cases operand <;> rfl

theorem Inst.subst_none (inst : Inst) : inst.subst (fun _ => none) = inst := by
  simp [Inst.subst, funext Operand.subst_none]

theorem Terminator.subst_none (term : Terminator) : term.subst (fun _ => none) = term := by
  cases term <;> simp [Terminator.subst, Operand.subst_none, funext Operand.subst_none]

@[simp] theorem Terminator.successors_subst (values : Subst) (term : Terminator) :
    (term.subst values).successors = term.successors := by
  cases term <;> rfl

theorem Terminator.of_subst_ret {values : Subst} {term : Terminator} {value : Option Operand}
    (returns : term.subst values = .ret value) :
    ∃ original, term = .ret original ∧ value = original.map (Operand.subst values) := by
  cases term with
  | ret original =>
    cases returns
    exact ⟨original, rfl, rfl⟩
  | _ => cases returns

@[simp] theorem BasicBlock.defs_subst (values : Subst) (block : BasicBlock) : (block.subst values).defs = block.defs := by
  simp [BasicBlock.defs, BasicBlock.subst, Phi.subst, Inst.subst, Function.comp_def]

@[simp] theorem BasicBlock.defs_removePredecessor (pred : Label) (block : BasicBlock) :
    (block.removePredecessor pred).defs = block.defs := by
  simp [BasicBlock.defs, BasicBlock.removePredecessor, Phi.removeIncomingValue, Function.comp_def]

theorem BasicBlock.mem_defs_eraseInst {id erased : Id} {block : BasicBlock} (defined : id ∈ (block.eraseInst erased).defs) :
    id ∈ block.defs ∧ (id = erased → id ∈ block.phis.map Phi.id) := by
  rcases List.mem_append.mp defined with phi | inst
  · exact ⟨List.mem_append_left _ phi, fun _ => phi⟩
  · obtain ⟨inst, kept, rfl⟩ := List.mem_map.mp inst
    have survives := List.mem_filter.mp kept
    exact ⟨BasicBlock.inst_def survives.1, fun same => by simp [same] at survives⟩

theorem Phi.lookup_subst (values : Subst) (phi : Phi) (pred : Label) :
    (phi.subst values).incoming.lookup pred = (phi.incoming.lookup pred).map (Operand.subst values) :=
  Assoc.lookup_map phi.incoming (fun _ => Operand.subst values) pred

theorem Phi.lookup_removeIncomingValue (phi : Phi) {dead pred : Label} (other : pred ≠ dead) :
    (phi.removeIncomingValue dead).incoming.lookup pred = phi.incoming.lookup pred := by
  rw [Phi.removeIncomingValue, Assoc.lookup_remove, if_neg other]

/-- What substituted operands read. -/
def Env.patch (values : Subst) (env : Env) : Env := fun id => (values id).or (env id)

theorem Env.patch_set {values : Subst} {id : Id} (kept : values id = none) (env : Env) (value : Val) :
    (env.set id value).patch values = (env.patch values).set id value := by
  funext x
  by_cases same : x = id
  · simp [Env.patch, Env.set, same, kept]
  · simp [Env.patch, Env.set, same]

section
variable (input : List Val) (values : Subst) (env : Env)

theorem Operand.eval_subst (operand : Operand) :
    (operand.subst values).eval input env = operand.eval input (env.patch values) := by
  cases operand with
  | const value => rfl
  | arg index => rfl
  | inst id => cases known : values id <;> simp [Operand.subst, Operand.eval, Env.patch, known]

theorem evalAll_subst (operands : List Operand) :
    evalAll input env (operands.map (Operand.subst values)) = evalAll input (env.patch values) operands := by
  induction operands with
  | nil => rfl
  | cons operand rest ih => simp [evalAll, Operand.eval_subst, ih]

theorem Terminator.goto_subst (term : Terminator) :
    (term.subst values).goto input env = term.goto input (env.patch values) := by
  cases term <;> simp [Terminator.subst, Terminator.goto, Operand.eval_subst]

end

/-! Reading from an environment that knows at least as much. -/

/-- What `env` has for a name, `wider` has too. -/
def Env.Below (env wider : Env) (id : Id) : Prop := ∀ value, env id = some value → wider id = some value

theorem Env.Below.set {env wider : Env} {x id : Id} (below : x ≠ id → env.Below wider x) (value : Val) :
    (env.set id value).Below (wider.set id value) x := by
  intro known found
  by_cases same : x = id
  · simpa [Env.set, same] using found
  · simp only [Env.set, if_neg same] at found ⊢
    exact below same known found

variable {input : List Val}

theorem Operand.eval_below {env wider : Env} {operand : Operand}
    (below : ∀ id, operand = .inst id → env.Below wider id) {value : Val}
    (read : operand.eval input env = some value) : operand.eval input wider = some value := by
  cases operand with
  | const _ => exact read
  | arg _ => exact read
  | inst id => exact below id rfl value read

theorem evalAll_below {env wider : Env} {operands : List Operand}
    (below : ∀ id, .inst id ∈ operands → env.Below wider id) {args : List Val}
    (read : evalAll input env operands = some args) : evalAll input wider operands = some args := by
  induction operands generalizing args with
  | nil => exact read
  | cons operand rest ih =>
    simp only [evalAll, Option.bind_eq_bind, Option.bind_eq_some_iff, Option.pure_def] at read ⊢
    obtain ⟨value, first, values, others, same⟩ := read
    refine ⟨value, Operand.eval_below (fun id same => below id ?_) first, values, ?_, same⟩
    · rw [← same]
      exact .head _
    · exact ih (fun id later => below id (.tail _ later)) others

theorem Terminator.goto_below {env wider : Env} {term : Terminator}
    (below : ∀ id, .inst id ∈ term.operands → env.Below wider id) {target : Label}
    (goes : term.goto input env = some target) : term.goto input wider = some target := by
  cases term with
  | br _ => exact goes
  | condBr cond ifTrue ifFalse =>
    cases read : cond.eval input env with
    | none => simp [Terminator.goto, read] at goes
    | some value =>
      have same := Operand.eval_below (fun id same => below id (by simp [Terminator.operands, same])) read
      simpa [Terminator.goto, read, same] using goes
  | switch cond cases default =>
    cases read : cond.eval input env with
    | none => simp [Terminator.goto, read] at goes
    | some value =>
      have same := Operand.eval_below (fun id same => below id (by simp [Terminator.operands, same])) read
      simpa [Terminator.goto, read, same] using goes
  | ret _ => cases goes
  | unreachable => cases goes

theorem assign_below {old oldWider env wider after : Env} {pred : Label} {phis : List Phi}
    (below : ∀ phi ∈ phis, ∀ id, phi.incoming.lookup pred = some (.inst id) → old.Below oldWider id)
    (assigned : assign input old pred phis env = some after) :
    ∃ afterWider, assign input oldWider pred phis wider = some afterWider ∧
      ∀ id, (id ∉ phis.map Phi.id → env.Below wider id) → after.Below afterWider id := by
  induction phis generalizing env wider with
  | nil =>
    cases assigned
    exact ⟨wider, rfl, fun id known => known (by simp)⟩
  | cons phi rest ih =>
    simp only [assign, Option.bind_eq_bind, Option.bind_eq_some_iff] at assigned ⊢
    obtain ⟨operand, incoming, value, read, remaining⟩ := assigned
    obtain ⟨afterWider, others, known⟩ : ∃ afterWider, assign input oldWider pred rest (wider.set phi.id value) =
        some afterWider ∧ _ := ih (fun phi later => below phi (.tail _ later)) remaining
    have same := Operand.eval_below (fun id same => below phi (.head _) id (same ▸ incoming)) read
    refine ⟨afterWider, ⟨operand, incoming, value, same, others⟩, fun id earlier => known id fun absent => ?_⟩
    exact Env.Below.set (fun differs => earlier (by simpa [differs] using absent)) value

end Llvm

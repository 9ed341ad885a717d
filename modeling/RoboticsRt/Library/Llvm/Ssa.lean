import Mathlib.Data.List.Pairwise
import RoboticsRt.Library.Llvm.Edit

/-! Well-formed functions: names are unique, branches stay inside, and a definition lies
on every path to a use. -/

namespace Llvm

/-- A place in the control-flow graph and the names defined on the way to it. -/
structure Point where
  label : Label
  rest : List Inst
  defined : List Id

inductive Flows (F : Function) : Point → Unit → Point → Prop where
  | inst {label inst rest defined} :
      Flows F ⟨label, inst :: rest, defined⟩ () ⟨label, rest, inst.id :: defined⟩
  | edge {label block target next defined} (here : F.block? label = some block)
      (edge : target ∈ block.term.successors) (there : F.block? target = some next) :
      Flows F ⟨label, [], defined⟩ () ⟨target, next.insts, next.phis.map Phi.id ++ defined⟩

/-- All paths from the entry, whatever the branch conditions. -/
def paths (F : Function) : Transition.System Point Unit where
  start point := ∃ block, F.block? F.entry = some block ∧ point = ⟨F.entry, block.insts, []⟩
  step := Flows F

/-- What is read next: by an instruction, by a terminator, or by a PHI node after it. -/
inductive Reads (F : Function) : Label → List Inst → Operand → Prop where
  | inst {label inst rest operand} (read : operand ∈ inst.operands) : Reads F label (inst :: rest) operand
  | term {label block operand} (here : F.block? label = some block)
      (read : operand ∈ block.term.operands) : Reads F label [] operand
  | phi {label block target next phi operand} (here : F.block? label = some block)
      (edge : target ∈ block.term.successors) (there : F.block? target = some next)
      (member : phi ∈ next.phis) (incoming : phi.incoming.lookup label = some operand) :
      Reads F label [] operand

def isComparison : Opcode → Bool
  | .icmp _ => true
  | _ => false

structure WellFormed (F : Function) : Prop where
  labels : F.labels.Nodup
  names : (F.blocks.flatMap fun block => block.2.defs).Nodup
  rooted : (F.block? F.entry).isSome
  entry : F.predEmpty F.entry
  closed : ∀ block ∈ F.blocks, ∀ target ∈ block.2.term.successors, (F.block? target).isSome
  arity : ∀ block ∈ F.blocks, ∀ inst ∈ block.2.insts, isComparison inst.op → inst.operands.length = 2
  dominated : ∀ point id, (paths F).Reachable point → Reads F point.label point.rest (.inst id) → id ∈ point.defined

/-! Unique names. -/

/-- A name is defined in one block only. -/
theorem WellFormed.same_label {F : Function} (wellFormed : WellFormed F) {l l' : Label} {b b' : BasicBlock} {id : Id}
    (one : F.block? l = some b) (two : F.block? l' = some b') (first : id ∈ b.defs) (second : id ∈ b'.defs) :
    l = l' := by
  have apart := (List.nodup_flatMap.mp wellFormed.names).2
  by_contra differs
  have entries : (l, b) ≠ (l', b') := fun same => differs (congrArg Prod.fst same)
  have symmetric : Std.Symm (Function.onFun List.Disjoint fun block : Label × BasicBlock => block.2.defs) :=
    ⟨fun _ _ => List.disjoint_symm⟩
  exact apart.forall (Assoc.mem_of_lookup one) (Assoc.mem_of_lookup two) entries first second

theorem WellFormed.defs_nodup {F : Function} (wellFormed : WellFormed F) {l : Label} {b : BasicBlock}
    (found : F.block? l = some b) : b.defs.Nodup :=
  (List.nodup_flatMap.mp wellFormed.names).1 (l, b) (Assoc.mem_of_lookup found)

/-- A name belongs to one instruction, or to a PHI node. -/
theorem WellFormed.same_inst {F : Function} (wellFormed : WellFormed F) {l l' : Label} {b b' : BasicBlock} {i i' : Inst}
    (one : F.block? l = some b) (two : F.block? l' = some b') (first : i ∈ b.insts) (second : i' ∈ b'.insts)
    (same : i'.id = i.id) : i' = i := by
  obtain rfl := wellFormed.same_label one two (BasicBlock.inst_def first) (same ▸ BasicBlock.inst_def second)
  rw [one] at two
  cases two
  have names := (List.nodup_append.mp (wellFormed.defs_nodup one)).2.1
  exact List.inj_on_of_nodup_map names second first same

theorem WellFormed.inst_not_phi {F : Function} (wellFormed : WellFormed F) {l l' : Label} {b b' : BasicBlock} {i : Inst}
    (one : F.block? l = some b) (two : F.block? l' = some b') (member : i ∈ b.insts) : i.id ∉ b'.phis.map Phi.id := by
  intro phi
  obtain rfl := wellFormed.same_label one two (BasicBlock.inst_def member) (List.mem_append_left _ phi)
  rw [one] at two
  cases two
  exact (List.nodup_append.mp (wellFormed.defs_nodup one)).2.2 _ phi _ (List.mem_map_of_mem member) rfl

/-- No name sits in two blocks. -/
def Function.OneHome (F : Function) : Prop := ∀ id label label', F.Sits id label → F.Sits id label' → label = label'

theorem WellFormed.oneHome {F : Function} (wellFormed : WellFormed F) : F.OneHome := by
  intro id label label' ⟨block, found, member⟩ ⟨block', found', member'⟩
  exact wellFormed.same_label found found' (List.mem_append_right _ member) (List.mem_append_right _ member')

theorem Function.OneHome.parent_iff {F : Function} (one : F.OneHome) {id : Id} {label : Label} :
    F.parent id = some label ↔ F.Sits id label := by
  constructor
  · exact parent_sits
  · intro sits
    obtain ⟨home, found⟩ := Option.isSome_iff_exists.mp (parent_isSome_iff.mpr ⟨label, sits⟩)
    rwa [one id label home sits (parent_sits found)]

/-! Runs and paths. -/

theorem goto_successor {term : Terminator} {input : List Val} {env : Env} {target : Label}
    (goes : term.goto input env = some target) : target ∈ term.successors := by
  cases term with
  | br only => simpa [Terminator.goto, Terminator.successors, eq_comm] using goes
  | condBr cond ifTrue ifFalse =>
    simp only [Terminator.goto] at goes
    split at goes
    · cases goes
      simp only [Terminator.successors]
      split <;> simp
    · cases goes
  | switch cond cases default =>
    simp only [Terminator.goto] at goes
    split at goes
    · next w b _ =>
      cases goes
      simp only [Terminator.successors]
      cases found : cases.lookup (.int w b) with
      | none => simp
      | some label =>
        exact List.mem_append_left _ (List.mem_map_of_mem (f := Prod.snd) (Assoc.mem_of_lookup found))
    · cases goes
  | ret value => cases goes
  | unreachable => cases goes

theorem assign_isSome {input : List Val} {old : Env} {pred : Label} {phis : List Phi} {env after : Env}
    (assigned : assign input old pred phis env = some after) {id : Id}
    (defined : id ∈ phis.map Phi.id ∨ (env id).isSome) : (after id).isSome := by
  induction phis generalizing env with
  | nil =>
    cases assigned
    simpa using defined
  | cons phi rest ih =>
    simp only [assign, Option.bind_eq_bind, Option.bind_eq_some_iff] at assigned
    obtain ⟨operand, _, value, _, remaining⟩ := assigned
    apply ih remaining
    rw [List.map_cons, List.mem_cons] at defined
    by_cases same : id = phi.id
    · exact .inr (by simp [Env.set, same])
    · rcases defined with (first | later) | known
      · exact absurd first same
      · exact .inl later
      · exact .inr (by simpa [Env.set, same] using known)

theorem assign_other {input : List Val} {old : Env} {pred : Label} {phis : List Phi} {env after : Env}
    (assigned : assign input old pred phis env = some after) {id : Id} (other : id ∉ phis.map Phi.id) :
    after id = env id := by
  induction phis generalizing env with
  | nil =>
    cases assigned
    rfl
  | cons phi rest ih =>
    simp only [assign, Option.bind_eq_bind, Option.bind_eq_some_iff] at assigned
    obtain ⟨operand, _, value, _, remaining⟩ := assigned
    rw [List.map_cons, List.mem_cons, not_or] at other
    rw [ih remaining other.2, Env.set, if_neg other.1]

variable {M : Type} {F : Function} {world : World M} {input : List Val} {mem : M}

/-- A run follows a path, and what the path defines has a value. -/
private theorem follows_path {state : State M} (reached : (system F world input mem).Reachable (.running state)) :
    ∃ defined, (paths F).Reachable ⟨state.label, state.rest, defined⟩ ∧ ∀ id ∈ defined, (state.env id).isSome := by
  apply reachable_running ?entry ?inst ?jump reached
  case entry => exact fun block here => ⟨[], .initial ⟨block, here, rfl⟩, by simp⟩
  case inst =>
    intro state inst rest args seen value after _ ⟨defined, path, known⟩ next _ _
    rw [next] at path
    refine ⟨inst.id :: defined, path.step .inst, fun id member => ?_⟩
    by_cases same : id = inst.id
    · simp [Env.set, same]
    · have earlier := known id ((List.mem_cons.mp member).resolve_left same)
      simpa [Env.set, same] using earlier
  case jump =>
    intro state block target entered env _ ⟨defined, path, known⟩ ended here goes there enters
    rw [ended] at path
    refine ⟨entered.phis.map Phi.id ++ defined, path.step (.edge here (goto_successor goes) there), ?_⟩
    intro id member
    apply assign_isSome enters
    rcases List.mem_append.mp member with new | earlier
    · exact .inl new
    · exact .inr (known id earlier)

/-- What a run of a well-formed function reads next has a value. -/
theorem WellFormed.read_isSome (wellFormed : WellFormed F) {state : State M}
    (reached : (system F world input mem).Reachable (.running state)) {id : Id}
    (read : Reads F state.label state.rest (.inst id)) : (state.env id).isSome := by
  obtain ⟨defined, path, known⟩ := follows_path reached
  exact known id (wellFormed.dominated _ id path read)

/-! Dominance can be checked: a table of names defined on every path to each block. -/

def Operand.inScope (names : List Id) : Operand → Bool
  | .inst id => names.contains id
  | _ => true

def scopedInsts : List Id → List Inst → Bool
  | _, [] => true
  | names, inst :: rest => inst.operands.all (Operand.inScope names) && scopedInsts (inst.id :: names) rest

def Function.scopedBlock (F : Function) (known : Label → List Id) (label : Label) (block : BasicBlock) : Bool :=
  let names := known label ++ block.defs
  scopedInsts (known label ++ block.phis.map Phi.id) block.insts &&
    block.term.operands.all (Operand.inScope names) &&
    block.term.successors.all fun target =>
      (known target).all names.contains &&
        (F.block? target).all fun next =>
          next.phis.all fun phi => (phi.incoming.lookup label).all (Operand.inScope names)

def Function.wellScoped (F : Function) (known : Label → List Id) : Bool :=
  (known F.entry).isEmpty && ((F.block? F.entry).all fun block => block.phis.isEmpty) &&
    F.blocks.all fun (label, block) => F.scopedBlock known label block

/-- Where a path stands in a well-scoped function. -/
structure Point.Scoped (F : Function) (known : Label → List Id) (point : Point) (names : List Id) : Prop where
  block : ∃ block, F.block? point.label = some block ∧
    ∀ id ∈ known point.label ++ block.defs, id ∈ names ∨ id ∈ point.rest.map Inst.id
  rest : scopedInsts names point.rest
  defined : names ⊆ point.defined

theorem Function.wellScoped_block {known : Label → List Id} (scopes : F.wellScoped known) {label : Label} {block : BasicBlock}
    (found : F.block? label = some block) : F.scopedBlock known label block := by
  simp only [Function.wellScoped, Bool.and_eq_true, List.all_eq_true] at scopes
  exact scopes.2 (label, block) (Assoc.mem_of_lookup found)

theorem Function.wellScoped_enters {known : Label → List Id} (scopes : F.wellScoped known) {label : Label} {block : BasicBlock}
    (found : F.block? label = some block) {defined : List Id} (ready : known label ++ block.phis.map Phi.id ⊆ defined) :
    Point.Scoped F known ⟨label, block.insts, defined⟩ (known label ++ block.phis.map Phi.id) where
  block := ⟨block, found, fun id member => by simpa [BasicBlock.defs, or_assoc] using member⟩
  rest := by
    have here := wellScoped_block scopes found
    simp only [Function.scopedBlock, Bool.and_eq_true] at here
    exact here.1.1
  defined := ready

theorem Function.wellScoped_path {known : Label → List Id} (scopes : F.wellScoped known) {point : Point}
    (reached : (paths F).Reachable point) : ∃ names, point.Scoped F known names := by
  suffices invariant : (paths F).Invariant fun point => ∃ names, point.Scoped F known names from
    invariant.reachable reached
  constructor
  · rintro point ⟨block, found, rfl⟩
    refine ⟨_, wellScoped_enters scopes found ?_⟩
    simp only [Function.wellScoped, Bool.and_eq_true, List.isEmpty_iff, found, Option.all_some] at scopes
    simp [scopes.1.1, scopes.1.2]
  · intro before ⟨⟩ after ⟨names, holds⟩ taken
    cases taken with
    | @inst label inst rest defined =>
      obtain ⟨block, found, cover⟩ := holds.block
      have scope := holds.rest
      simp only [scopedInsts, Bool.and_eq_true] at scope
      refine ⟨inst.id :: names, ⟨block, found, fun id member => ?_⟩, scope.2, List.cons_subset_cons _ holds.defined⟩
      have somewhere := cover id member
      simp only [List.map_cons, List.mem_cons] at somewhere ⊢
      tauto
    | @edge label block target next defined here edge there =>
      refine ⟨_, wellScoped_enters scopes there ?_⟩
      obtain ⟨block', found, cover⟩ := holds.block
      rw [here] at found
      cases found
      have scope := wellScoped_block scopes here
      simp only [Function.scopedBlock, Bool.and_eq_true, List.all_eq_true, List.contains_eq_mem, decide_eq_true_eq] at scope
      intro id member
      rcases List.mem_append.mp member with old | new
      · have names := cover id ((scope.2 target edge).1 id old)
        exact List.mem_append_right _ (holds.defined (by simpa using names))
      · exact List.mem_append_left _ new

/-- A table that checks makes definitions dominate uses. -/
theorem Function.wellScoped_dominated (known : Label → List Id) (scopes : F.wellScoped known) (point : Point) (id : Id)
    (reached : (paths F).Reachable point) (read : Reads F point.label point.rest (.inst id)) : id ∈ point.defined := by
  obtain ⟨names, holds⟩ := wellScoped_path scopes reached
  apply holds.defined
  obtain ⟨label, rest, defined⟩ := point
  obtain ⟨block, found, cover⟩ := holds.block
  have scope := wellScoped_block scopes found
  simp only [Function.scopedBlock, Bool.and_eq_true, List.all_eq_true] at scope
  cases read with
  | inst operand =>
    have inside := holds.rest
    simp only [scopedInsts, Bool.and_eq_true, List.all_eq_true] at inside
    simpa [Operand.inScope] using inside.1 _ operand
  | term here operand =>
    rw [found] at here
    cases here
    have inside := scope.1.2 _ operand
    simp only [Operand.inScope, List.contains_eq_mem, decide_eq_true_eq] at inside
    simpa using cover id inside
  | @phi _ target next phi _ here edge there member incoming =>
    rw [found] at here
    cases here
    have inside := (scope.2 target edge).2
    simp only [there, Option.all_some, List.all_eq_true] at inside
    have operand := inside phi member
    simp only [incoming, Option.all_some, Operand.inScope, List.contains_eq_mem, decide_eq_true_eq] at operand
    simpa using cover id operand

end Llvm

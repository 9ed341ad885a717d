import RoboticsRt.Proofs.OverflowOptimize

/-! The checks `UBSanSignedOverflowOptimize` takes out never overflow if three things hold. The
analyses are right about the clone. The clone stands for the executions that reach the checks,
as it does under handlers that end the program or only report. And the one range the pass makes
up itself, the union of the start and the end of a recurrence, holds the values in between. -/

namespace RoboticsRt.Ubsan
open Llvm

variable {M : Type}

/-- The ranges the analyses answer with are right of a value the operand takes. -/
structure Operand.Right {w : Nat} (V : Operand w) (v : BitVec w) : Prop where
  signedRange : V.signedRange.contains v = true
  guardedRange : ∀ guarded ∈ V.guardedRange, guarded.contains v = true

/-- Narrowing by start and end leaves the value in. No right answer implies it: a recurrence may
wrap on its way, and the union of the two ranges may close the other way round. -/
def Operand.KeptByNarrowing {w : Nat} (V : Operand w) (v : BitVec w) : Prop :=
  ∀ union ∈ V.narrowing, union.contains v = true

def AnswersRight (clone : Function) (answers : Id → Operands) (world : World M) (input : List Val) (mem : M) : Prop :=
  ∀ check a b, ReachesCheck clone world input mem check a b → ∃ x y : BitVec (answers check).width,
    a = .int _ x ∧ b = .int _ y ∧ (answers check).lhs.Right x ∧ (answers check).rhs.Right y

def NarrowingKeeps (clone : Function) (answers : Id → Operands) (world : World M) (input : List Val) (mem : M) : Prop :=
  ∀ check (x y : BitVec (answers check).width), ReachesCheck clone world input mem check (.int _ x) (.int _ y) →
    (answers check).lhs.KeptByNarrowing x ∧ (answers check).rhs.KeptByNarrowing y

def FollowedToChecks (F : Function) (answers : Id → Operands) (world : World M) (input : List Val) (mem : M) : Prop :=
  ∀ state check a b, (system F world input mem).Reachable (.running state) → AtCheck input state check a b →
    Removed F answers check → (harmlessExecutions F world input mem).Reachable state

section
variable {F G clone : Function} {answers : Id → Operands} {world : World M} {input : List Val} {mem : M}

theorem Operand.Right.bound {w : Nat} {V : Operand w} {v : BitVec w} (right : V.Right v) (kept : V.KeptByNarrowing v) :
    (boundOverflowOperand V).contains v = true := by
  have initial : V.initialRange.contains v = true := by
    unfold Operand.initialRange
    cases guards : V.guardedRange with
    | none => exact right.signedRange
    | some guarded => exact ConstantRange.contains_intersectWith right.signedRange (right.guardedRange guarded guards)
  rw [boundOverflowOperand_eq]
  cases narrowed : V.narrowing with
  | none => exact initial
  | some union => exact ConstantRange.contains_intersectWith initial (kept union narrowed)

theorem Sound.kept {w : Nat} {V : Operand w} {ar : AddRec w} {endR : ConstantRange w} {start step : BitVec w} {B k : Nat}
    (sound : Sound V ar endR start step B) (between : Between ar.startR endR (iterate start step k)) :
    V.KeptByNarrowing (iterate start step k) := by
  intro union narrowed
  simp only [Operand.narrowing, sound.addRec, sound.constant, sound.counted, Option.bind_some, Option.mem_def,
    Option.ite_none_right_eq_some, Bool.and_eq_true, Bool.not_eq_true', Option.some.injEq] at narrowed
  obtain ⟨⟨⟨startKnown, endKnown⟩, _⟩, rfl⟩ := narrowed
  have proper := ConstantRange.Proper.of_contains sound.first startKnown
  have proper' := ConstantRange.Proper.of_contains sound.last endKnown
  exact (ConstantRange.contains_unionWith proper proper' _).mpr between

theorem Sound.right {w : Nat} {V : Operand w} {ar : AddRec w} {endR : ConstantRange w} {start step : BitVec w} {B k : Nat}
    (sound : Sound V ar endR start step B) (within : k ≤ B) : V.Right (iterate start step k) :=
  ⟨sound.signedRange k within, fun guarded known => sound.guardedRange guarded known k within⟩

theorem twin_op (wellFormed : WellFormed F) (straight : straightenOverflowBranches F = some clone) {inst : Inst}
    {wo : BinaryOp × Bool} (found : twin clone inst.id = some wo) {label : Label} {block : BasicBlock}
    (here : F.block? label = some block) (member : inst ∈ block.insts) : inst.op = .withOverflow wo.1 wo.2 := by
  obtain ⟨values, rewritten⟩ := straightenOverflowBranches_rewritten wellFormed straight
  have labels := (straightenOverflowBranches_wellFormed wellFormed straight).labels
  unfold twin at found
  cases first : (clone.blocks.flatMap fun block => block.2.insts).find? fun other => other.id == inst.id with
  | none =>
    rw [first] at found
    cases found
  | some other =>
    rw [first] at found
    have named : other.id = inst.id := eq_of_beq (List.find?_some first :)
    obtain ⟨⟨home, after⟩, listed, inside⟩ := List.mem_flatMap.mp (List.mem_of_find?_eq_some first)
    obtain ⟨before, original, rewrites⟩ := rewritten.block home after (Assoc.lookup_of_mem labels listed)
    dsimp only at inside
    rw [rewrites.insts] at inside
    obtain ⟨source, kept, rfl⟩ := List.mem_map.mp inside
    obtain rfl := wellFormed.same_inst here original member (List.mem_of_mem_filter kept) named
    dsimp only at found
    split at found
    · next op signed same =>
      cases found
      exact same
    · cases found

theorem check_args {op : BinaryOp} {signed : Bool} {args : List Val} {value : Val}
    (evaluated : (Opcode.withOverflow op signed).eval args = some value) : ∃ a b, args = [a, b] := by
  match args with
  | [a, b] => exact ⟨a, b, rfl⟩
  | [] => simp [Opcode.eval] at evaluated
  | [_] => simp [Opcode.eval] at evaluated
  | _ :: _ :: _ :: _ => simp [Opcode.eval] at evaluated

theorem proven_never_overflows (wellFormed : WellFormed F)
    (right : ∀ clone, straightenOverflowBranches F = some clone → AnswersRight clone answers world input mem)
    (keeps : ∀ clone, straightenOverflowBranches F = some clone → NarrowingKeeps clone answers world input mem)
    (followed : FollowedToChecks F answers world input mem) :
    NeverOverflows F (Removed F answers) world input mem := by
  intro state reached inst rest args value next removed read evaluated
  obtain ⟨clone, wo, straight, _, found, proves⟩ := mem_provenOnClone.mp removed
  obtain ⟨block, here, inside⟩ := reachable_within reached
  have op := twin_op wellFormed straight found here (inside (next ▸ .head _))
  rw [op] at evaluated
  obtain ⟨a, b, rfl⟩ := check_args evaluated
  have atCheck : AtCheck input state inst.id a b := ⟨inst, rest, next, rfl, by rw [op]; rfl, read⟩
  obtain ⟨values, rewritten⟩ := straightenOverflowBranches_rewritten wellFormed straight
  obtain ⟨target, reached', tracks⟩ := clone_follows rewritten (followed state inst.id a b reached atCheck removed)
  have reaches : ReachesCheck clone world input mem inst.id a b :=
    ⟨target, reached', atCheck_of_tracks rewritten tracks atCheck⟩
  obtain ⟨x, y, rfl, rfl, lhs, rhs⟩ := right clone straight inst.id a b reaches
  obtain ⟨keptLhs, keptRhs⟩ := keeps clone straight inst.id x y reaches
  obtain ⟨_, _, _, safe⟩ := (rangesProveNoOverflow_iff (answers inst.id).positive
    (boundOverflowOperand_valid (answers inst.id).lhsValid) (boundOverflowOperand_valid (answers inst.id).rhsValid)).mp proves
  have quiet := safe x y (lhs.bound keptLhs) (rhs.bound keptRhs)
  simp only [Opcode.eval, BitVec.cast_eq, quiet, dite_true, Option.some.injEq] at evaluated
  exact ⟨_, evaluated.symm⟩

theorem jump_harmless_or_handler {state : State M} {block entered : BasicBlock} {target : Label} {env : Env}
    (harmless : (harmlessExecutions F world input mem).Reachable state) (ended : state.rest = [])
    (here : F.block? state.label = some block) (goes : block.term.goto input state.env = some target)
    (there : F.block? target = some entered)
    (enters : assign input state.env state.label entered.phis state.env = some env) :
    (harmlessExecutions F world input mem).Reachable ⟨target, entered.insts, env, state.mem⟩ ∨
      ∃ cont, checked F (collectOverflowInstructions F) state.label = true ∧ guard F state.label = some (target, cont) := by
  by_cases continues : ∀ cont, straightened F (collectOverflowInstructions F) state.label = some cont → target = cont
  · refine .inl (harmless.step (Harmless.step (.jump ended here goes there enters) ?_))
    intro _ block' cont label here' straight goes'
    rw [here] at here'
    cases here'
    rw [goes] at goes'
    cases goes'
    exact continues cont straight
  · obtain ⟨cont, straight, other⟩ : ∃ cont, straightened F (collectOverflowInstructions F) state.label = some cont ∧
        target ≠ cont := by simpa using continues
    simp only [straightened, Option.ite_none_right_eq_some, Option.map_eq_some_iff] at straight
    obtain ⟨holds, ⟨handler, _⟩, guarded, rfl⟩ := straight
    obtain ⟨block', found, branch⟩ := guard_edges guarded
    rw [here] at found
    cases found
    have either := branch.mem_iff.mp (goto_successor goes)
    obtain rfl : target = handler := by simpa [other] using either
    exact .inr ⟨_, holds, guarded⟩

/-! Handlers that end the program. -/

/-- No `__ubsan_handle_*` callee returns. -/
def HandlersEnd (world : World M) : Prop :=
  ∀ callee args mem value after, callee.startsWith kUBSanPrefix = true → ¬ world.call (some callee) args mem value after

theorem harmless_or_handler (ends : HandlersEnd world) {state : State M}
    (reached : (system F world input mem).Reachable (.running state)) :
    (harmlessExecutions F world input mem).Reachable state ∨
      isHandler F state.label = true ∧ ∃ inst ∈ state.rest, isUBSanSite inst.op = true := by
  apply reachable_running ?entry ?inst ?jump reached
  case entry => exact fun block here => .inl (.initial ⟨block, here, rfl⟩)
  case inst =>
    intro state inst rest args seen value after _ holds next read executed
    rcases holds with harmless | ⟨handler, site, pending, reports⟩
    · exact .inl (harmless.step (Harmless.step (.inst next read executed) fun ended => by simp [next] at ended))
    · rw [next] at pending
      rcases List.mem_cons.mp pending with rfl | later
      · generalize site.op = op at reports executed
        cases executed with
        | pure evaluated =>
          cases op with
          | call callee => cases evaluated
          | _ => cases reports
        | @call callee _ _ _ _ returned =>
          cases callee with
          | none => cases reports
          | some callee => exact absurd returned (ends callee _ _ _ _ reports)
        | other _ => cases reports
      · exact .inr ⟨handler, site, later, reports⟩
  case jump =>
    intro state block target entered env reached holds ended here goes there enters
    rcases holds with harmless | ⟨_, site, pending, _⟩
    · rcases jump_harmless_or_handler harmless ended here goes there enters with follows | ⟨cont, _, guarded⟩
      · exact .inl follows
      · obtain ⟨handles, _⟩ := guard_handlers guarded
        have sites := handles
        rw [isHandler, there, Option.any_some, hasUBSanSite, List.any_eq_true] at sites
        exact .inr ⟨handles, sites⟩
    · rw [ended] at pending
      cases pending

theorem followed_aborting (ends : HandlersEnd world)
    (plain : ∀ label, isHandler F label = true → checked F (collectOverflowInstructions F) label = false) :
    FollowedToChecks F answers world input mem := by
  intro state check a b reached ⟨inst, rest, next, named, _⟩ removed
  rcases harmless_or_handler ends reached with harmless | ⟨handler, _⟩
  · exact harmless
  · obtain ⟨block, here, inside⟩ := reachable_within reached
    have inside : checked F (collectOverflowInstructions F) state.label = true :=
      checked_iff.mpr ⟨block, here, inst, inside (next ▸ .head _), named ▸ removed_collected removed⟩
    rw [plain state.label handler] at inside
    cases inside

/-- An execution the clone does not follow is in a handler and does not come back from it. If no
handler has a check of its own, what is known of the clone is known of every check that is run. -/
theorem optimize_sound_aborting (F G : Function) (answers : Id → Operands) (preserved : PreservedAnalyses)
    (world : World M) (input : List Val) (mem : M) (wellFormed : WellFormed F)
    (ran : signedOverflowOptimize F answers = some (G, preserved)) (ends : HandlersEnd world)
    (plain : ∀ label, isHandler F label = true → checked F (collectOverflowInstructions F) label = false)
    (right : ∀ clone, straightenOverflowBranches F = some clone → AnswersRight clone answers world input mem)
    (keeps : ∀ clone, straightenOverflowBranches F = some clone → NarrowingKeeps clone answers world input mem)
    (trace : List Action) : Behaves F world input mem trace ↔ Behaves G world input mem trace :=
  optimized_behaves wellFormed ran (proven_never_overflows wellFormed right keeps (followed_aborting ends plain)) trace

/-! Counting from 0 to 3, where ScalarEvolution only knows the start and the end: without the
narrowing the check would stay. -/

theorem counter_valid : (counter 1 3).Valid := by
  refine ⟨by decide, ?_, ?_⟩
  · rintro _ ⟨⟩
    decide
  · rintro _ ⟨⟩
    refine ⟨by decide, ?_, ?_⟩
    · rintro _ ⟨⟩
    · rintro _ ⟨⟩
      decide

def countBy : Operand 8 := ⟨⟨1, 2⟩, none, none⟩

theorem countBy_valid : countBy.Valid := by
  refine ⟨by decide, ?_, ?_⟩ <;> rintro _ ⟨⟩

def fewCounts : Operands where
  width := 8
  positive := Nat.succ_pos 7
  lhs := counter 1 3
  rhs := countBy
  lhsValid := counter_valid
  rhsValid := countBy_valid

def fewCountsOptimized (last : Terminator) : Function where
  sret := []
  entry := 0
  blocks := [
    (0, { phis := [], insts := [], term := .br 1 }),
    (1, { phis := [⟨10, [(0, .const (.int 8 0)), (3, .inst 12)]⟩], insts := [nextCount, countSum],
          term := .condBr (.const (.bool false)) 4 3 }),
    (4, { phis := [], insts := [⟨15, .call (some "__ubsan_handle_add_overflow"), []⟩], term := last }),
    (3, { phis := [], insts := [countTest 4], term := .condBr (.inst 14) 2 1 }),
    (2, { phis := [], insts := [], term := .ret none })]

theorem counting_wellFormed : WellFormed (counting 0 4 .unreachable) ∧ WellFormed (counting 0 4 (.br 3)) := by
  constructor <;> exact {
    labels := by decide
    names := by decide
    rooted := by decide
    entry := by decide
    closed := by decide
    arity := by decide
    dominated := Function.wellScoped_dominated
      (fun label => if label ≤ 1 then [] else if label = 2 then [10, 11, 12, 13, 14] else [10, 11, 12, 13]) (by decide) }

theorem counting_optimized :
    signedOverflowOptimize (counting 0 4 .unreachable) (fun _ => fewCounts) = some (fewCountsOptimized .unreachable, ⟨false⟩) ∧
      signedOverflowOptimize (counting 0 4 (.br 3)) (fun _ => fewCounts) = some (fewCountsOptimized (.br 3), ⟨false⟩) := by
  decide +kernel

theorem counting_clone : straightenOverflowBranches (counting 0 4 .unreachable) = some (countingClone 0 4) ∧
    straightenOverflowBranches (counting 0 4 (.br 3)) = some (countingClone 0 4) := by
  decide +kernel

/-- Each value of the counter is kept, and the narrowing is what keeps it from overflowing. -/
theorem fewCounts_right (world : World Unit) :
    AnswersRight (countingClone 0 4) (fun _ => fewCounts) world [] () ∧
      NarrowingKeeps (countingClone 0 4) (fun _ => fewCounts) world [] () := by
  have three : iterate (0 : BitVec 8) 1 (3 + 1) = 4 := by decide
  have sound := counter_sound 1 3 (by decide)
  have between : ∀ k ≤ 3, Between (⟨0, 1⟩ : ConstantRange 8) ⟨3, 4⟩ (iterate 0 1 k) := by
    unfold Between ConstantRange.Apart
    decide
  have one : fewCounts.rhs.Right 1 := ⟨by decide, by rintro _ ⟨⟩⟩
  constructor
  · intro check a b reached
    obtain ⟨_, ⟨k, early, rfl⟩, rfl⟩ := counting_operands three reached
    exact ⟨iterate 0 1 k, 1, rfl, rfl, sound.right early, one⟩
  · intro check x y reached
    obtain ⟨_, ⟨k, early, same⟩, _⟩ := counting_operands three reached
    cases same
    exact ⟨sound.kept (between k early), by rintro _ ⟨⟩⟩

theorem counting_handlers (label : Label) (handler : isHandler (counting 0 4 .unreachable) label = true) :
    checked (counting 0 4 .unreachable) (collectOverflowInstructions (counting 0 4 .unreachable)) label = false := by
  obtain ⟨block, here, _⟩ := (Option.any_eq_true _ _).mp handler
  have plain : ∀ entry ∈ (counting 0 4 .unreachable).blocks, isHandler (counting 0 4 .unreachable) entry.1 = true →
      checked (counting 0 4 .unreachable) (collectOverflowInstructions (counting 0 4 .unreachable)) entry.1 = false := by
    decide +kernel
  exact plain _ (Assoc.mem_of_lookup here) handler

theorem reporting_ends : HandlersEnd reporting := fun _ _ _ _ _ _ returned => returned

theorem counting_aborting : Behaves (counting 0 4 .unreachable) reporting [] () [.ret none] ↔
    Behaves (fewCountsOptimized .unreachable) reporting [] () [.ret none] := by
  refine optimize_sound_aborting _ _ _ _ _ _ _ counting_wellFormed.1 counting_optimized.1 reporting_ends counting_handlers
    ?_ ?_ _
  all_goals
    intro clone straight
    rw [counting_clone.1] at straight
    cases straight
  · exact (fewCounts_right _).1
  · exact (fewCounts_right _).2

/-! Handlers that report and return. -/

/-- The handlers the checks guard jump straight to the continue block, leave the memory alone
and define nothing that is read there. -/
structure ReportsOnly (F : Function) (world : World M) (label handler cont : Label) (block next : BasicBlock) : Prop where
  term : block.term = .br cont
  memory : ∀ inst ∈ block.insts, ∀ args mem seen value after,
    Executes world inst.op args mem seen (some (value, after)) → after = mem
  unchecked : ∀ inst ∈ block.insts, inst.id ∉ collectOverflowInstructions F
  phis : ∀ phi ∈ next.phis, phi.incoming.lookup handler = phi.incoming.lookup label ∧
    ∀ id ∈ block.defs, phi.incoming.lookup label ≠ some (.inst id)
  dead : ∀ id ∈ block.defs, ¬ Live F cont next.insts id

def HandlersReport (F : Function) (world : World M) : Prop :=
  ∀ label handler cont block next, checked F (collectOverflowInstructions F) label = true →
    guard F label = some (handler, cont) → F.block? handler = some block → F.block? cont = some next →
    ReportsOnly F world label handler cont block next

def Unread (F : Function) (id : Id) : Prop :=
  ∀ block ∈ F.blocks, (∀ phi ∈ block.2.phis, ∀ edge ∈ phi.incoming, edge.2 ≠ .inst id) ∧
    (∀ inst ∈ block.2.insts, .inst id ∉ inst.operands) ∧ .inst id ∉ block.2.term.operands

instance (F : Function) (id : Id) : Decidable (Unread F id) :=
  inferInstanceAs (Decidable (∀ block ∈ F.blocks, _ ∧ _ ∧ _))

theorem dead_of_unread {id : Id} (unread : Unread F id) {label : Label} {rest : List Inst}
    (pending : ∀ inst ∈ rest, .inst id ∉ inst.operands) : ¬ Live F label rest id := by
  intro live
  induction live with
  | reads read =>
    cases read with
    | inst read => exact pending _ (.head _) read
    | term here read => exact (unread _ (Assoc.mem_of_lookup here)).2.2 read
    | phi _ _ there member incoming =>
      exact (unread _ (Assoc.mem_of_lookup there)).1 _ member _ (Assoc.mem_of_lookup incoming) rfl
  | skip _ _ ih => exact ih unread fun inst later => pending inst (.tail _ later)
  | edge _ _ there _ _ ih => exact ih unread (unread _ (Assoc.mem_of_lookup there)).2.1

/-- On the way through a handler that a check guards. -/
structure Reporting (F : Function) (world : World M) (input : List Val) (mem : M) (branch state : State M)
    (cont : Label) (block : BasicBlock) : Prop where
  harmless : (harmlessExecutions F world input mem).Reachable branch
  ended : branch.rest = []
  checked : checked F (collectOverflowInstructions F) branch.label = true
  guarded : guard F branch.label = some (state.label, cont)
  here : F.block? state.label = some block
  inside : state.rest ⊆ block.insts
  run : ∃ events, (system F world input mem).Run (.running branch) events (.running state)
  memory : state.mem = branch.mem
  env : ∀ id, id ∉ block.defs → state.env id = branch.env id

theorem assign_agree {old old' env env' after : Env} {pred pred' : Label} {phis : List Phi} {names : Id → Prop}
    (same : ∀ phi ∈ phis, phi.incoming.lookup pred' = phi.incoming.lookup pred ∧
      ∀ operand, phi.incoming.lookup pred = some operand → operand.eval input old' = operand.eval input old)
    (agree : ∀ id, names id → env' id = env id) (assigned : assign input old' pred' phis env' = some after) :
    ∃ direct, assign input old pred phis env = some direct ∧ ∀ id, names id → after id = direct id := by
  induction phis generalizing env env' with
  | nil =>
    cases assigned
    exact ⟨env, rfl, agree⟩
  | cons phi rest ih =>
    simp only [assign, Option.bind_eq_bind, Option.bind_eq_some_iff] at assigned ⊢
    obtain ⟨operand, incoming, value, read, remaining⟩ := assigned
    obtain ⟨lookup, evals⟩ := same phi (.head _)
    rw [lookup] at incoming
    rw [evals operand incoming] at read
    have next : ∀ id, names id → (env'.set phi.id value) id = (env.set phi.id value) id := by
      intro id named
      by_cases self : id = phi.id
      · simp [Env.set, self]
      · simp [Env.set, self, agree id named]
    obtain ⟨direct, others, known⟩ := ih (fun phi later => same phi (.tail _ later)) next remaining
    exact ⟨direct, ⟨operand, incoming, value, read, others⟩, known⟩

theorem Reporting.only (wellFormed : WellFormed F) (reports : HandlersReport F world) {branch state : State M}
    {cont : Label} {block : BasicBlock} (reporting : Reporting F world input mem branch state cont block) :
    ∃ next, F.block? cont = some next ∧ ReportsOnly F world branch.label state.label cont block next := by
  obtain ⟨source, here, _, edge⟩ := guard_successors reporting.guarded
  obtain ⟨next, there⟩ := Option.isSome_iff_exists.mp (wellFormed.closed _ (Assoc.mem_of_lookup here) cont edge)
  exact ⟨next, there, reports _ _ _ block next reporting.checked reporting.guarded reporting.here there⟩

theorem Reporting.inst (wellFormed : WellFormed F) (reports : HandlersReport F world) {branch state : State M}
    {cont : Label} {block : BasicBlock} (reporting : Reporting F world input mem branch state cont block) {inst : Inst}
    {rest : List Inst} {args : List Val} {seen : Option Action} {value : Val} {after : M}
    (next : state.rest = inst :: rest) (read : evalAll input state.env inst.operands = some args)
    (executed : Executes world inst.op args state.mem seen (some (value, after))) :
    Reporting F world input mem branch { state with rest, env := state.env.set inst.id value, mem := after } cont block := by
  obtain ⟨_, _, only⟩ := reporting.only wellFormed reports
  have member : inst ∈ block.insts := reporting.inside (next ▸ .head _)
  obtain ⟨events, run⟩ := reporting.run
  refine { reporting with
    inside := fun _ later => reporting.inside (next ▸ .tail _ later)
    run := ⟨_, run.tail (.inst next read executed)⟩
    memory := (only.memory inst member _ _ _ _ _ executed).trans reporting.memory
    env := fun id other => ?_ }
  have apart : id ≠ inst.id := fun same => other (same ▸ BasicBlock.inst_def member)
  exact (if_neg apart).trans (reporting.env id other)

theorem Reporting.jump (wellFormed : WellFormed F) (reports : HandlersReport F world) {branch state : State M}
    {cont : Label} {block entered : BasicBlock} {target : Label} {env : Env}
    (reporting : Reporting F world input mem branch state cont block) (ended : state.rest = [])
    (goes : block.term.goto input state.env = some target) (there : F.block? target = some entered)
    (enters : assign input state.env state.label entered.phis state.env = some env) :
    (harmlessExecutions F world input mem).Reachable ⟨target, entered.insts, env, state.mem⟩ := by
  obtain ⟨next, found, only⟩ := reporting.only wellFormed reports
  rw [only.term] at goes
  cases goes
  rw [there] at found
  cases found
  have same : ∀ phi ∈ entered.phis, phi.incoming.lookup state.label = phi.incoming.lookup branch.label ∧
      ∀ operand, phi.incoming.lookup branch.label = some operand →
        operand.eval input state.env = operand.eval input branch.env := by
    intro phi member
    obtain ⟨lookup, undefined⟩ := only.phis phi member
    refine ⟨lookup, fun operand incoming => ?_⟩
    cases operand with
    | const _ => rfl
    | arg _ => rfl
    | inst id => exact reporting.env id fun defined => undefined id defined incoming
  obtain ⟨direct, jump, agree⟩ := assign_agree same reporting.env enters
  have straight : straightened F (collectOverflowInstructions F) branch.label = some cont := by
    simp [straightened, reporting.checked, reporting.guarded]
  obtain ⟨events, run⟩ := reporting.run
  refine reporting.harmless.step (Harmless.detour reporting.ended straight there
    (run.tail (.jump ended reporting.here (by rw [only.term]; rfl) there enters)) rfl rfl reporting.memory jump ?_)
  exact fun id alive => agree id fun defined => only.dead id defined alive

theorem harmless_or_reporting (wellFormed : WellFormed F) (reports : HandlersReport F world) {state : State M}
    (reached : (system F world input mem).Reachable (.running state)) :
    (harmlessExecutions F world input mem).Reachable state ∨
      ∃ branch cont block, Reporting F world input mem branch state cont block := by
  apply reachable_running ?entry ?inst ?jump reached
  case entry => exact fun block here => .inl (.initial ⟨block, here, rfl⟩)
  case inst =>
    intro state inst rest args seen value after _ holds next read executed
    rcases holds with harmless | ⟨branch, cont, block, reporting⟩
    · exact .inl (harmless.step (Harmless.step (.inst next read executed) fun ended => by simp [next] at ended))
    · exact .inr ⟨branch, cont, block, reporting.inst wellFormed reports next read executed⟩
  case jump =>
    intro state block target entered env reached holds ended here goes there enters
    rcases holds with harmless | ⟨branch, cont, handler, reporting⟩
    · rcases jump_harmless_or_handler harmless ended here goes there enters with follows | ⟨cont, holds, guarded⟩
      · exact .inl follows
      · refine .inr ⟨state, cont, entered, harmless, ended, holds, guarded, there, fun _ member => member, ?_, rfl, ?_⟩
        · exact ⟨_, .single (.jump ended here goes there enters)⟩
        · intro id other
          exact assign_other enters fun phi => other (List.mem_append_left _ phi)
    · have same := reporting.here
      rw [here] at same
      cases same
      exact .inl (reporting.jump wellFormed reports ended goes there enters)

theorem followed_recovering (wellFormed : WellFormed F) (reports : HandlersReport F world) :
    FollowedToChecks F answers world input mem := by
  intro state check a b reached ⟨inst, rest, next, named, _⟩ removed
  rcases harmless_or_reporting wellFormed reports reached with harmless | ⟨branch, cont, block, reporting⟩
  · exact harmless
  · obtain ⟨_, _, only⟩ := reporting.only wellFormed reports
    exact absurd (named ▸ removed_collected removed) (only.unchecked inst (reporting.inside (next ▸ .head _)))

/-- A handler that only reports leaves nothing behind: at the continue block the clone has caught
up. -/
theorem optimize_sound_recovering (F G : Function) (answers : Id → Operands) (preserved : PreservedAnalyses)
    (world : World M) (input : List Val) (mem : M) (wellFormed : WellFormed F)
    (ran : signedOverflowOptimize F answers = some (G, preserved)) (reports : HandlersReport F world)
    (right : ∀ clone, straightenOverflowBranches F = some clone → AnswersRight clone answers world input mem)
    (keeps : ∀ clone, straightenOverflowBranches F = some clone → NarrowingKeeps clone answers world input mem)
    (trace : List Action) : Behaves F world input mem trace ↔ Behaves G world input mem trace :=
  optimized_behaves wellFormed ran (proven_never_overflows wellFormed right keeps (followed_recovering wellFormed reports)) trace

theorem counting_recovering : Behaves (counting 0 4 (.br 3)) returning [] () [.ret none] ↔
    Behaves (fewCountsOptimized (.br 3)) returning [] () [.ret none] := by
  refine optimize_sound_recovering _ _ _ _ _ _ _ counting_wellFormed.2 counting_optimized.2 ?_ ?_ ?_ _
  · intro label handler cont block next holds guarded here there
    obtain ⟨source, found, _⟩ := guard_edges guarded
    have only : ∀ entry ∈ (counting 0 4 (.br 3)).blocks,
        checked (counting 0 4 (.br 3)) (collectOverflowInstructions (counting 0 4 (.br 3))) entry.1 = true →
        entry.1 = 1 ∧ guard (counting 0 4 (.br 3)) entry.1 = some (4, 3) := by decide +kernel
    obtain ⟨rfl, same⟩ := only _ (Assoc.mem_of_lookup found) holds
    rw [guarded] at same
    cases same
    cases here
    cases there
    exact {
      term := rfl
      memory := fun _ _ _ _ _ _ _ _ => rfl
      unchecked := by decide
      phis := fun _ member => by cases member
      dead := fun id defined => by
        rw [List.mem_singleton.mp defined]
        exact dead_of_unread (by decide) (by decide) }
  all_goals
    intro clone straight
    rw [counting_clone.2] at straight
    cases straight
  · exact (fewCounts_right _).1
  · exact (fewCounts_right _).2

end
end RoboticsRt.Ubsan

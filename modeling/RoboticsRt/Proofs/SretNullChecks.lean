import RoboticsRt.Proofs.SilentErasure

/-! `UBSanOptimizeSretNullChecks` and what an observer sees. The comparison it erases is
false, but the branch it straightens belongs to whatever ends the comparison's block. -/

namespace RoboticsRt.Ubsan
open Llvm

variable {M : Type}

/-- The caller's promise. -/
def SretNonNull (F : Function) (input : List Val) : Prop :=
  ∀ index, F.sret.getD index false = true → ∃ address, address ≠ 0 ∧ input[index]? = some (.ptr address)

/-- The pass kept the actions, and made branches unconditional only where all executions
went that way already. -/
structure Preserved (F G : Function) (world : World M) (input : List Val) (mem : M) : Prop where
  actions : ∀ trace, Behaves F world input mem trace ↔ Behaves G world input mem trace
  branches : ∀ state before after cond ifTrue ifFalse target,
    (system F world input mem).Reachable (.running state) → state.rest = [] →
    F.block? state.label = some before → G.block? state.label = some after →
    before.term = .condBr cond ifTrue ifFalse → after.term = .br target →
    before.term.goto input state.env = some target

/-- Executions leave a guarded block with a null check in it for the continue block. -/
def TakesContinue (F : Function) (world : World M) (input : List Val) (mem : M) : Prop :=
  ∀ state block cont, (system F world input mem).Reachable (.running state) → state.rest = [] →
    F.block? state.label = some block → straightened F (nullChecks F) state.label = some cont →
    block.term.goto input state.env = some cont

/-! A null check computes `false`. -/

section
variable {F G : Function} {world : World M} {input : List Val} {mem : M}

theorem null_check_listed (wellFormed : WellFormed F) {label : Label} {block : BasicBlock}
    (found : F.block? label = some block) {inst : Inst} (member : inst ∈ block.insts) (listed : inst.id ∈ nullChecks F) :
    inst.op = .icmp .eq ∧ comparesSretToNull F inst = true := by
  obtain ⟨home, before, here, check, inside, same, test⟩ := mem_collect listed wellFormed
  obtain rfl := wellFormed.same_inst found here member inside same
  simpa using test

theorem null_check_args (nonNull : SretNonNull F input) {inst : Inst} (arity : inst.operands.length = 2)
    (compares : comparesSretToNull F inst = true) (env : Env) :
    ∃ address, address ≠ 0 ∧ (evalAll input env inst.operands = some [.null, .ptr address] ∨
      evalAll input env inst.operands = some [.ptr address, .null]) := by
  obtain ⟨lhs, rhs, operands⟩ := List.length_eq_two.mp arity
  simp only [comparesSretToNull, operands, List.any_cons, List.any_nil, Bool.or_false, Bool.and_eq_true,
    Bool.or_eq_true, beq_iff_eq] at compares
  obtain ⟨isNull, isSret⟩ := compares
  rw [operands]
  rcases isNull with rfl | rfl
  · cases rhs with
    | arg index =>
      obtain ⟨address, differs, known⟩ := nonNull index (by simpa using isSret)
      exact ⟨address, differs, .inl (by simp [evalAll, Operand.eval, known])⟩
    | const _ => simp at isSret
    | inst _ => simp at isSret
  · cases lhs with
    | arg index =>
      obtain ⟨address, differs, known⟩ := nonNull index (by simpa using isSret)
      exact ⟨address, differs, .inr (by simp [evalAll, Operand.eval, known])⟩
    | const _ => simp at isSret
    | inst _ => simp at isSret

theorem null_check_false (nonNull : SretNonNull F input) {inst : Inst} (arity : inst.operands.length = 2)
    (compares : comparesSretToNull F inst = true) (env : Env) :
    ∃ args, evalAll input env inst.operands = some args ∧ (Opcode.icmp .eq).eval args = some (.bool false) := by
  obtain ⟨address, differs, args | args⟩ := null_check_args nonNull arity compares env
  · have apart : ((0 : BitVec 64) == address) = false := beq_eq_false_iff_ne.mpr (Ne.symm differs)
    exact ⟨_, args, by simp only [Opcode.eval, Val.null, Predicate.compare, apart]⟩
  · have apart : (address == (0 : BitVec 64)) = false := beq_eq_false_iff_ne.mpr differs
    exact ⟨_, args, by simp only [Opcode.eval, Val.null, Predicate.compare, apart]⟩

theorem null_check_step (wellFormed : WellFormed F) (nonNull : SretNonNull F input) {state : State M} {inst : Inst}
    {rest : List Inst} (next : state.rest = inst :: rest) {block : BasicBlock} (here : F.block? state.label = some block)
    (member : inst ∈ block.insts) (listed : inst.id ∈ nullChecks F) (seen : Option Action) (config : Config M) :
    Step F world input (.running state) seen config ↔
      seen = none ∧ config = .running { state with rest, env := state.env.set inst.id (.bool false) } := by
  obtain ⟨op, compares⟩ := null_check_listed wellFormed here member listed
  have arity := wellFormed.arity _ (Assoc.mem_of_lookup here) inst member (by rw [op]; rfl)
  obtain ⟨args, read, result⟩ := null_check_false nonNull arity compares state.env
  constructor
  · intro taken
    cases taken with
    | inst next' read' executed =>
      rw [next] at next'
      cases next'
      rw [read] at read'
      cases read'
      rw [op] at executed
      cases executed with
      | pure evaluated =>
        rw [result] at evaluated
        cases evaluated
        exact ⟨rfl, rfl⟩
    | jump ended => simp [next] at ended
    | ret ended => simp [next] at ended
  · rintro ⟨rfl, rfl⟩
    exact .evaluates next read (op ▸ result)

theorem null_checks_silent {values : Subst} (wellFormed : WellFormed F) (nonNull : SretNonNull F input)
    (rewritten : Rewritten F (nullChecks F) (nullChecks F) values G) :
    Silent F (nullChecks F) values world input mem := by
  intro state inst rest reached next listed
  obtain ⟨block, here, inside⟩ := reachable_within reached
  refine ⟨.bool false, rewritten.folded inst.id listed, ?_⟩
  exact null_check_step wellFormed nonNull next here (inside (next ▸ .head _)) listed

/-- The comparison is false by the promise of the caller, but the branch that ends its block need
not be on it. Behaviour is kept exactly where executions never leave such a block for the
handler. -/
theorem null_checks_preserved_iff (F G : Function) (world : World M) (input : List Val) (mem : M)
    (wellFormed : WellFormed F) (ran : optimizeSretNullChecks F = some G) (nonNull : SretNonNull F input) :
    Preserved F G world input mem ↔ TakesContinue F world input mem := by
  obtain ⟨values, rewritten⟩ := optimizeSretNullChecks_rewritten wellFormed ran
  have silent : Silent F (nullChecks F) values world input mem := null_checks_silent wellFormed nonNull rewritten
  constructor
  · intro preserved state block cont reached ended here straight
    have continues : Continues F G (nullChecks F) world input mem := by
      intro state block cont reached ended here straight left
      obtain ⟨after, found⟩ := Option.isSome_iff_exists.mp left
      obtain ⟨before, original, rewrites⟩ := rewritten.block _ after found
      obtain ⟨block', cond, ifTrue, ifFalse, here', term, _⟩ := straightened_branch straight
      rw [here] at here'
      cases here'
      have target : after.term = .br cont := by rw [rewrites.term, straight]
      exact preserved.branches state block after cond ifTrue ifFalse cont reached ended here found term target
    exact continues state block cont reached ended here straight (rewritten.stays_inside silent continues reached)
  · intro takes
    have continues : Continues F G (nullChecks F) world input mem :=
      fun state block cont reached ended here straight _ => takes state block cont reached ended here straight
    refine ⟨rewritten.same_behaviours wellFormed silent continues, ?_⟩
    intro state before after cond ifTrue ifFalse target reached ended here found branch jump
    obtain ⟨original, there, rewrites⟩ := rewritten.block _ after found
    rw [here] at there
    cases there
    rw [rewrites.term] at jump
    cases straight : straightened F (nullChecks F) state.label with
    | none =>
      rw [straight, branch] at jump
      cases jump
    | some cont =>
      rw [straight] at jump
      cases jump
      exact takes state before target reached ended here straight

/-! The checks the pass is meant for: the branch is on the comparison itself. -/

private theorem null_checks_false (wellFormed : WellFormed F) (nonNull : SretNonNull F input) {state : State M}
    (reached : (system F world input mem).Reachable (.running state)) {check : Id} (listed : check ∈ nullChecks F) :
    ∀ value, state.env check = some value → value = .bool false := by
  apply reachable_running ?entry ?inst ?jump reached
  case entry =>
    intro block _ value known
    cases known
  case inst =>
    intro state inst rest args seen value after reached falses next read executed value' known
    by_cases same : check = inst.id
    · obtain ⟨block, here, inside⟩ := reachable_within reached
      have step : Step F world input (.running state) seen (state.resume rest inst.id (some (value, after))) :=
        .inst next read executed
      obtain ⟨_, result⟩ :=
        (null_check_step wellFormed nonNull next here (inside (next ▸ .head _)) (same ▸ listed) _ _).mp step
      have stored := congrArg (fun state => state.env inst.id) (Config.running.inj result)
      rw [same] at known
      exact Option.some.inj (known.symm.trans (stored.trans (if_pos rfl)))
    · exact falses value' (by simpa [Env.set, same] using known)
  case jump =>
    intro state block target entered env _ falses _ _ _ there enters value known
    obtain ⟨home, before, found, inst, member, rfl, _⟩ := mem_collect listed wellFormed
    have kept := assign_other enters (wellFormed.inst_not_phi found there member)
    exact falses value (kept ▸ known)

/-- A guarded block whose branch is on a null check, the handler on the true side. -/
theorem direct_checks_continue (wellFormed : WellFormed F) (nonNull : SretNonNull F input)
    (direct : ∀ label block cont, F.block? label = some block → straightened F (nullChecks F) label = some cont →
      ∃ check ∈ nullChecks F, ∃ handler, block.term = .condBr (.inst check) handler cont) :
    TakesContinue F world input mem := by
  intro state block cont reached ended here straight
  obtain ⟨check, listed, handler, term⟩ := direct _ block cont here straight
  have read : Reads F state.label state.rest (.inst check) := by
    rw [ended]
    exact .term here (by rw [term]; exact .head _)
  obtain ⟨value, known⟩ := Option.isSome_iff_exists.mp (wellFormed.read_isSome reached read)
  obtain rfl := null_checks_false wellFormed nonNull reached listed value known
  simp [term, Terminator.goto, Operand.eval, known, Val.bool]

end

/-! One function, branching on either of its two comparisons. -/

private def resultIsNull : Inst := ⟨1, .icmp .eq, [.arg 0, .const .null]⟩

private def otherIsNull : Inst := ⟨2, .icmp .eq, [.arg 1, .const .null]⟩

private def typeMismatch : Inst := ⟨3, .call (some "__ubsan_handle_type_mismatch_v1_abort"), []⟩

def branchesOn (cond : Id) : Function where
  sret := [true, false]
  entry := 0
  blocks := [
    (0, { phis := [], insts := [resultIsNull, otherIsNull], term := .condBr (.inst cond) 1 2 }),
    (1, { phis := [], insts := [typeMismatch], term := .unreachable }),
    (2, { phis := [], insts := [], term := .ret none })]

def branchesOnNone : Function where
  sret := [true, false]
  entry := 0
  blocks := [
    (0, { phis := [], insts := [otherIsNull], term := .br 2 }),
    (2, { phis := [], insts := [], term := .ret none })]

def reporting : World Unit where
  call _ _ _ _ _ := False
  aborts _ _ _ := True
  other _ _ _ _ _ := False

theorem branchesOn_wellFormed {cond : Id} (defined : cond = 1 ∨ cond = 2) : WellFormed (branchesOn cond) := by
  rcases defined with rfl | rfl <;> exact {
    labels := by decide
    names := by decide
    rooted := by decide
    entry := by decide
    closed := by decide
    arity := by decide
    dominated := Function.wellScoped_dominated (fun label => if label = 0 then [] else [1, 2]) (by decide) }

theorem branchesOn_optimized {cond : Id} (defined : cond = 1 ∨ cond = 2) :
    optimizeSretNullChecks (branchesOn cond) = some branchesOnNone := by
  rcases defined with rfl | rfl <;> decide +kernel

private theorem sret_pointer_nonNull (cond : Id) (other : Val) : SretNonNull (branchesOn cond) [.ptr 64, other] := by
  intro index sret
  match index with
  | 0 => exact ⟨64, by decide, rfl⟩
  | 1 => cases sret
  | _ + 2 => simp [branchesOn] at sret

/-- Where the branch is on the sret argument the pass is right. -/
theorem sret_branch_removed : Preserved (branchesOn 1) branchesOnNone reporting [.ptr 64, .ptr 8] () := by
  have nonNull : SretNonNull (branchesOn 1) [.ptr 64, .ptr 8] := sret_pointer_nonNull 1 _
  refine (null_checks_preserved_iff _ _ _ _ _ (branchesOn_wellFormed (.inl rfl))
    (branchesOn_optimized (.inl rfl)) nonNull).mpr ?_
  apply direct_checks_continue (branchesOn_wellFormed (.inl rfl)) nonNull
  intro label block cont here straight
  have entry : straightened (branchesOn 1) (nullChecks (branchesOn 1)) 0 = some 2 := by decide +kernel
  have handler : straightened (branchesOn 1) (nullChecks (branchesOn 1)) 1 = none := by decide +kernel
  have last : straightened (branchesOn 1) (nullChecks (branchesOn 1)) 2 = none := by decide +kernel
  have inside := Assoc.mem_of_lookup here
  simp only [branchesOn, List.mem_cons, Prod.mk.injEq, List.not_mem_nil, or_false] at inside
  rcases inside with ⟨rfl, rfl⟩ | ⟨rfl, rfl⟩ | ⟨rfl, rfl⟩
  · rw [entry] at straight
    cases straight
    exact ⟨1, by decide, 1, rfl⟩
  · rw [handler] at straight
    cases straight
  · rw [last] at straight
    cases straight

private def isCall : Opcode → Bool
  | .call _ => true
  | _ => false

private theorem callFree_actions {F : Function} {world : World M} {input : List Val} {mem : M}
    (callFree : ∀ block ∈ F.blocks, ∀ inst ∈ block.2.insts, isCall inst.op = false)
    {config after : Config M} {events : List (Option Action)} (run : (system F world input mem).Run config events after)
    (inside : ∀ state, config = .running state → ∀ inst ∈ state.rest, isCall inst.op = false) :
    ∀ action ∈ Transition.visible events, ∃ value, action = .ret value := by
  induction run with
  | refl _ => simp
  | @head before event middle rest after taken run ih =>
    cases taken with
    | @inst source inst rest args seen result next read executed =>
      have quiet := inside source rfl inst (next ▸ .head _)
      have later := ih fun state running other member => by
        cases result with
        | none => cases running
        | some result =>
          cases running
          exact inside source rfl other (next ▸ .tail _ member)
      generalize inst.op = op at quiet executed
      cases executed with
      | pure _ => exact later
      | call _ => cases quiet
      | abort _ => cases quiet
      | other _ => exact later
    | @jump source block target entered env ended here goes there enters =>
      refine ih fun state running => ?_
      cases running
      exact callFree _ (Assoc.mem_of_lookup there)
    | @ret _ _ _ result =>
      have nothing : Transition.visible rest = [] := by
        cases run with
        | refl _ => rfl
        | head taken _ => cases taken
      simp [nothing]

/-- Where it is on the other argument the report is lost. -/
theorem other_report_lost :
    WellFormed (branchesOn 2) ∧ optimizeSretNullChecks (branchesOn 2) = some branchesOnNone ∧
      SretNonNull (branchesOn 2) [.ptr 64, .null] ∧
      Behaves (branchesOn 2) reporting [.ptr 64, .null] ()
        [.abort (some "__ubsan_handle_type_mismatch_v1_abort") []] ∧
      ¬ Preserved (branchesOn 2) branchesOnNone reporting [.ptr 64, .null] () := by
  have first : Step (branchesOn 2) reporting [.ptr 64, .null]
      (.running ⟨0, [resultIsNull, otherIsNull], fun _ => none, ()⟩) none
      (.running ⟨0, [otherIsNull], Env.set (fun _ => none) resultIsNull.id (.bool false), ()⟩) :=
    .evaluates rfl rfl rfl
  have second : Step (branchesOn 2) reporting [.ptr 64, .null]
      (.running ⟨0, [otherIsNull], Env.set (fun _ => none) resultIsNull.id (.bool false), ()⟩) none
      (.running ⟨0, [], (Env.set (fun _ => none) resultIsNull.id (.bool false)).set otherIsNull.id (.bool true), ()⟩) :=
    .evaluates rfl rfl rfl
  have third : Step (branchesOn 2) reporting [.ptr 64, .null]
      (.running ⟨0, [], (Env.set (fun _ => none) resultIsNull.id (.bool false)).set otherIsNull.id (.bool true), ()⟩) none
      (.running ⟨1, [typeMismatch], (Env.set (fun _ => none) resultIsNull.id (.bool false)).set otherIsNull.id (.bool true), ()⟩) :=
    .jumps rfl rfl rfl rfl rfl rfl
  have fourth : Step (branchesOn 2) reporting [.ptr 64, .null]
      (.running ⟨1, [typeMismatch], (Env.set (fun _ => none) resultIsNull.id (.bool false)).set otherIsNull.id (.bool true), ()⟩)
      (some (.abort (some "__ubsan_handle_type_mismatch_v1_abort") [])) .aborted := .aborts rfl rfl rfl trivial
  have reports : Behaves (branchesOn 2) reporting [.ptr 64, .null] ()
      [.abort (some "__ubsan_handle_type_mismatch_v1_abort") []] :=
    ⟨_, _, _, ⟨_, rfl, rfl⟩, .head first (.head second (.head third (.single fourth))), rfl⟩
  refine ⟨branchesOn_wellFormed (.inr rfl), branchesOn_optimized (.inr rfl), sret_pointer_nonNull 2 _, reports, ?_⟩
  intro preserved
  obtain ⟨config, final, events, ⟨block, here, rfl⟩, run, seen⟩ := (preserved.actions _).mp reports
  have callFree : ∀ block ∈ branchesOnNone.blocks, ∀ inst ∈ block.2.insts, isCall inst.op = false := by decide
  have inside : ∀ state, Config.running (M := Unit) ⟨branchesOnNone.entry, block.insts, fun _ => none, ()⟩ = .running state →
      ∀ inst ∈ state.rest, isCall inst.op = false := by
    intro state running
    cases running
    exact callFree _ (Assoc.mem_of_lookup here)
  obtain ⟨value, same⟩ := callFree_actions callFree run inside _ (by rw [seen]; exact .head _)
  cases same

end RoboticsRt.Ubsan

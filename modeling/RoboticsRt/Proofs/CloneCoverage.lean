import RoboticsRt.Proofs.Tracking

/-! The speculative clone and the executions it stands for. Straightening a branch loses
the executions in which the handler returns with something the continue block can tell. -/

namespace RoboticsRt.Ubsan
open Llvm

variable {M : Type}

/-- Names read from a place on, before they are defined again. -/
inductive Live (F : Function) : Label → List Inst → Id → Prop where
  | reads {label rest id} (read : Reads F label rest (.inst id)) : Live F label rest id
  | skip {label inst rest id} (later : Live F label rest id) (kept : id ≠ inst.id) : Live F label (inst :: rest) id
  | edge {label block target next id} (here : F.block? label = some block) (edge : target ∈ block.term.successors)
      (there : F.block? target = some next) (later : Live F target next.insts id)
      (kept : id ∉ next.phis.map Phi.id) : Live F label [] id

theorem live_liveness (F : Function) : Liveness F (Live F) where
  reads _ _ _ read := .reads read
  skip _ _ _ _ later kept := .skip later kept
  edge _ _ _ _ _ here edge there later kept := .edge here edge there later kept

/-- About to run the overflow check `w` on `a` and `b`. -/
def AtCheck (input : List Val) (state : State M) (w : Id) (a b : Val) : Prop :=
  ∃ inst rest, state.rest = inst :: rest ∧ inst.id = w ∧ isWithOverflow inst.op = true ∧
    evalAll input state.env inst.operands = some [a, b]

def ReachesCheck (F : Function) (world : World M) (input : List Val) (mem : M) (w : Id) (a b : Val) : Prop :=
  ∃ state, (system F world input mem).Reachable (.running state) ∧ AtCheck input state w a b

/-- Steps of an execution, where a detour through a handler comes back to the continue
block with the memory and the live values a direct jump there gives. -/
inductive Harmless (F : Function) (world : World M) (input : List Val) (mem : M) :
    State M → List (Option Action) → State M → Prop where
  | step {state after seen} (taken : Step F world input (.running state) seen (.running after))
      (continues : state.rest = [] → ∀ block cont label, F.block? state.label = some block →
        straightened F (collectOverflowInstructions F) state.label = some cont →
        block.term.goto input state.env = some label → label = cont) :
      Harmless F world input mem state [seen] after
  | detour {state after : State M} {events cont next env} (ended : state.rest = [])
      (straight : straightened F (collectOverflowInstructions F) state.label = some cont)
      (there : F.block? cont = some next)
      (run : (system F world input mem).Run (.running state) events (.running after))
      (label : after.label = cont) (rest : after.rest = next.insts) (memory : after.mem = state.mem)
      (jump : assign input state.env state.label next.phis state.env = some env)
      (same : ∀ id, Live F cont next.insts id → after.env id = env id) :
      Harmless F world input mem state events after

def harmlessExecutions (F : Function) (world : World M) (input : List Val) (mem : M) :
    Transition.System (State M) (List (Option Action)) where
  start state := (system F world input mem).start (.running state)
  step := Harmless F world input mem

variable {F G : Function} {values : Subst} {world : World M} {input : List Val} {mem : M}

theorem Harmless.run {state after : State M} {events : List (Option Action)}
    (harmless : Harmless F world input mem state events after) :
    (system F world input mem).Run (.running state) events (.running after) := by
  cases harmless with
  | step taken => exact .single taken
  | detour _ _ _ run => exact run

theorem harmless_reachable {state : State M} (reached : (harmlessExecutions F world input mem).Reachable state) :
    (system F world input mem).Reachable (.running state) := by
  obtain ⟨first, events, start, run⟩ := reached
  have reached : (system F world input mem).Reachable (.running first) := .initial start
  clear start
  induction run with
  | refl _ => exact reached
  | head taken _ ih => exact ih (reached.run taken.run)

private theorem Harmless.answer {state after target : State M} {events : List (Option Action)}
    (harmless : Harmless F world input mem state events after)
    (rewritten : Rewritten F (collectOverflowInstructions F) [] values G)
    (tracks : Tracks F G [] values (Live F) state target) :
    ∃ seen answer, Step G world input (.running target) seen (.running answer) ∧
      Tracks F G [] values (Live F) after answer := by
  cases harmless with
  | step taken continues =>
    obtain ⟨answer, step, same⟩ :=
      tracks.step (live_liveness F) rewritten taken (fun _ _ _ => List.not_mem_nil) continues
    cases same with
    | running same => exact ⟨_, _, step, same⟩
  | @detour _ _ cont next env ended straight there run label rest memory jump same =>
    obtain ⟨found, kept⟩ := Option.isSome_iff_exists.mp tracks.left
    obtain ⟨_, _, rewrites⟩ := rewritten.block _ found kept
    have branch : found.term = .br cont := by rw [rewrites.term, straight]
    obtain ⟨block, here, _⟩ := tracks.within
    have edge := straightened_successor here straight
    obtain ⟨entered, found'⟩ := Option.isSome_iff_exists.mp
      (rewritten.closed _ found kept cont (by rw [branch]; exact .head _))
    obtain ⟨env', enters, direct⟩ :=
      tracks.enter (live_liveness F) rewritten ended here edge there found' jump
    have ended' : target.rest = [] := by rw [tracks.rest, ended]; rfl
    have step : Step G world input (.running target) none (.running ⟨cont, entered.insts, env', target.mem⟩) := by
      refine .jump ended' (tracks.label ▸ kept) ?_ found' enters
      rw [branch]
      rfl
    refine ⟨_, _, step, label ▸ direct.label, rest ▸ direct.rest, memory ▸ direct.mem, ?_, ?_, label ▸ direct.left⟩
    · rw [label, rest]
      intro id alive value known
      have jumped : env id = some value := by rw [← same id alive, known]
      exact direct.env id alive value jumped
    · rw [label, rest]
      exact direct.within

theorem clone_follows (rewritten : Rewritten F (collectOverflowInstructions F) [] values G)
    {state : State M} (reached : (harmlessExecutions F world input mem).Reachable state) :
    ∃ target, (system G world input mem).Reachable (.running target) ∧ Tracks F G [] values (Live F) state target := by
  obtain ⟨source, target, starts, starts', tracks⟩ := rewritten.start (Live F) world input mem
  obtain ⟨first, events, start, run⟩ := reached
  cases (starts _).mp start
  have reached : (system G world input mem).Reachable (.running target) := .initial ((starts' _).mpr rfl)
  clear start starts starts'
  induction run generalizing target with
  | refl _ => exact ⟨target, reached, tracks⟩
  | head taken _ ih =>
    obtain ⟨seen, answer, step, same⟩ := taken.answer rewritten tracks
    exact ih answer same (reached.step step)

theorem atCheck_of_tracks (rewritten : Rewritten F (collectOverflowInstructions F) [] values G) {state target : State M}
    (tracks : Tracks F G [] values (Live F) state target) {w : Id} {a b : Val} (atCheck : AtCheck input state w a b) :
    AtCheck input target w a b := by
  obtain ⟨inst, rest, next, named, overflow, args⟩ := atCheck
  obtain ⟨rest', next', _⟩ := tracks.resume (live_liveness F) rewritten next List.not_mem_nil
  refine ⟨inst.subst values, rest', next', named, overflow, ?_⟩
  rw [Inst.subst, evalAll_subst]
  refine evalAll_below (fun id operand => tracks.env id ?_) args
  rw [next]
  exact .reads (.inst operand)

/-- The clone has no handlers, so the ranges computed on it are those of executions that never
leave the straight path. They hold for the original where a detour brings back what a direct jump
gives. -/
theorem clone_covers (F G : Function) (world : World M) (input : List Val) (mem : M) (wellFormed : WellFormed F)
    (ran : straightenOverflowBranches F = some G) (state : State M)
    (reached : (harmlessExecutions F world input mem).Reachable state) (w : Id) (a b : Val)
    (atCheck : AtCheck input state w a b) : ReachesCheck G world input mem w a b := by
  obtain ⟨values, rewritten⟩ := straightenOverflowBranches_rewritten wellFormed ran
  obtain ⟨target, reached, tracks⟩ := clone_follows rewritten reached
  exact ⟨target, reached, atCheck_of_tracks rewritten tracks atCheck⟩

/-! A handler that returns, and a continue block that can tell. -/

private def increment : Inst := ⟨1, .withOverflow .add true, [.arg 0, .const (.int 32 1)]⟩

private def overflowed : Inst := ⟨2, .extractValue 1, [.inst 1]⟩

private def report : Inst := ⟨3, .call (some "__ubsan_handle_add_overflow"), []⟩

private def total : Inst := ⟨5, .withOverflow .add true, [.inst 4, .arg 0]⟩

/-- `x + 1` under a handler that goes on; then `x` plus one if the handler ran. -/
def reportsAndGoesOn : Function where
  sret := [false]
  entry := 0
  blocks := [
    (0, { phis := [], insts := [increment, overflowed], term := .condBr (.inst 2) 1 2 }),
    (1, { phis := [], insts := [report], term := .br 2 }),
    (2, {
      phis := [⟨4, [(0, .const (.int 32 0)), (1, .const (.int 32 1))]⟩]
      insts := [total]
      term := .ret none })]

def reportsAndGoesOnClone : Function where
  sret := [false]
  entry := 0
  blocks := [
    (0, { phis := [], insts := [increment, overflowed], term := .br 2 }),
    (2, { phis := [⟨4, [(0, .const (.int 32 0))]⟩], insts := [total], term := .ret none })]

def returning : World Unit where
  call _ _ _ value _ := value = .poison
  aborts _ _ _ := False
  other _ _ _ _ _ := False

theorem reportsAndGoesOn_wellFormed : WellFormed reportsAndGoesOn where
  labels := by decide
  names := by decide
  rooted := by decide
  entry := by decide
  closed := by decide
  arity := by decide
  dominated := Function.wellScoped_dominated (fun label => if label = 0 then [] else [1, 2]) (by decide)

theorem reportsAndGoesOn_clone : straightenOverflowBranches reportsAndGoesOn = some reportsAndGoesOnClone := by
  decide +kernel

private def branchEnv (x : BitVec 32) : Env :=
  (Env.set (fun _ => none) increment.id (.checked (.int 32 (x + 1)) (x.saddOverflow 1))).set overflowed.id
    (.bool (x.saddOverflow 1))

private theorem reaches_branch (x : BitVec 32) :
    (harmlessExecutions reportsAndGoesOn returning [.int 32 x] ()).Reachable ⟨0, [], branchEnv x, ()⟩ := by
  have start : (harmlessExecutions reportsAndGoesOn returning [.int 32 x] ()).start
      ⟨0, [increment, overflowed], fun _ => none, ()⟩ := ⟨_, rfl, rfl⟩
  have first : Step reportsAndGoesOn returning [.int 32 x] (.running ⟨0, [increment, overflowed], fun _ => none, ()⟩)
      none (.running ⟨0, [overflowed], Env.set (fun _ => none) increment.id
        (.checked (.int 32 (x + 1)) (x.saddOverflow 1)), ()⟩) := .evaluates rfl rfl rfl
  have second : Step reportsAndGoesOn returning [.int 32 x] (.running ⟨0, [overflowed], Env.set (fun _ => none)
      increment.id (.checked (.int 32 (x + 1)) (x.saddOverflow 1)), ()⟩)
      none (.running ⟨0, [], branchEnv x, ()⟩) := .evaluates rfl rfl rfl
  exact ((Transition.System.Reachable.initial start).step (Harmless.step first (by simp))).step
    (Harmless.step second (by simp))

private theorem clone_total {input : List Val} {state : State Unit}
    (reached : (system reportsAndGoesOnClone returning input ()).Reachable (.running state)) :
    state.label = 0 ∧ (∀ inst ∈ state.rest, inst.id ≠ 5) ∨
      state.label = 2 ∧ (∀ inst ∈ state.rest, inst = total) ∧ state.env 4 = some (.int 32 0) := by
  apply reachable_running ?entry ?inst ?jump reached
  case entry =>
    intro block here
    cases here
    exact .inl ⟨rfl, by decide⟩
  case inst =>
    intro state inst rest args seen value after _ holds next _ _
    rcases holds with ⟨label, other⟩ | ⟨label, only, four⟩
    · exact .inl ⟨label, fun later member => other later (next ▸ .tail _ member)⟩
    · refine .inr ⟨label, fun later member => only later (next ▸ .tail _ member), ?_⟩
      have last : inst = total := only inst (next ▸ .head _)
      simp [Env.set, last, total, four]
  case jump =>
    intro state block target entered env _ holds _ here goes there enters
    rcases holds with ⟨label, _⟩ | ⟨label, _, _⟩
    · rw [label] at here enters
      cases here
      cases goes
      cases there
      cases enters
      exact .inr ⟨rfl, by simp, rfl⟩
    · rw [label] at here
      cases here
      cases goes

/-- With the largest `int` the total is taken of one and it, but never in the clone. -/
theorem recovered_total_missed :
    WellFormed reportsAndGoesOn ∧ straightenOverflowBranches reportsAndGoesOn = some reportsAndGoesOnClone ∧
      5 ∈ collectOverflowInstructions reportsAndGoesOnClone ∧
      ReachesCheck reportsAndGoesOn returning [.int 32 0x7fffffff] () 5 (.int 32 1) (.int 32 0x7fffffff) ∧
      ¬ ReachesCheck reportsAndGoesOnClone returning [.int 32 0x7fffffff] () 5 (.int 32 1) (.int 32 0x7fffffff) := by
  refine ⟨reportsAndGoesOn_wellFormed, reportsAndGoesOn_clone, by decide, ?_, ?_⟩
  · have handler : Step reportsAndGoesOn returning [.int 32 0x7fffffff] (.running ⟨0, [], branchEnv 0x7fffffff, ()⟩)
        none (.running ⟨1, [report], branchEnv 0x7fffffff, ()⟩) := .jumps rfl rfl rfl rfl rfl rfl
    have returns : Step reportsAndGoesOn returning [.int 32 0x7fffffff] (.running ⟨1, [report], branchEnv 0x7fffffff, ()⟩)
        (some (.call (some "__ubsan_handle_add_overflow") [] .poison))
        (.running ⟨1, [], (branchEnv 0x7fffffff).set report.id .poison, ()⟩) := .calls rfl rfl rfl rfl
    have continues : Step reportsAndGoesOn returning [.int 32 0x7fffffff]
        (.running ⟨1, [], (branchEnv 0x7fffffff).set report.id .poison, ()⟩) none
        (.running ⟨2, [total], ((branchEnv 0x7fffffff).set report.id .poison).set 4 (.int 32 1), ()⟩) :=
      .jumps rfl rfl rfl rfl rfl rfl
    exact ⟨_, (((harmless_reachable (reaches_branch _)).step handler).step returns).step continues,
      total, [], rfl, rfl, rfl, rfl⟩
  · intro ⟨state, reached, inst, rest, next, named, _, args⟩
    rcases clone_total reached with ⟨_, other⟩ | ⟨_, only, four⟩
    · exact other inst (next ▸ .head _) named
    · rw [only inst (next ▸ .head _)] at args
      simp [total, evalAll, Operand.eval, four] at args

theorem clone_covers_total : ReachesCheck reportsAndGoesOnClone returning [.int 32 1] () 5 (.int 32 0) (.int 32 1) := by
  have goes : Step reportsAndGoesOn returning [.int 32 1] (.running ⟨0, [], branchEnv 1, ()⟩)
      none (.running ⟨2, [total], (branchEnv 1).set 4 (.int 32 0), ()⟩) := .jumps rfl rfl rfl rfl rfl rfl
  have straight : straightened reportsAndGoesOn (collectOverflowInstructions reportsAndGoesOn) 0 = some 2 := by
    decide +kernel
  have reached := (reaches_branch 1).step (Harmless.step goes fun _ block cont label here rewritten next => by
    rw [straight] at rewritten
    cases rewritten
    cases here
    cases next
    rfl)
  exact clone_covers reportsAndGoesOn reportsAndGoesOnClone returning _ () reportsAndGoesOn_wellFormed
    reportsAndGoesOn_clone _ reached 5 _ _ ⟨total, [], rfl, rfl, rfl, rfl⟩

end RoboticsRt.Ubsan

import RoboticsRt.Proofs.KeptForm
import RoboticsRt.Proofs.SretNullChecks

/-! `UBSanSignedOverflowOptimize` and what an observer sees: nothing changes up to the first
overflow at a check it takes out. -/

namespace RoboticsRt.Ubsan
open Llvm

/-! Checks that do not overflow. -/

variable {M : Type}

/-- If one of these checks is next, what it computes carries no overflow. -/
def QuietAt (input : List Val) (checks : Id → Prop) (state : State M) : Prop :=
  ∀ inst rest args value, state.rest = inst :: rest → checks inst.id → evalAll input state.env inst.operands = some args →
    inst.op.eval args = some value → ∃ result, value = .checked result false

def NeverOverflows (F : Function) (checks : Id → Prop) (world : World M) (input : List Val) (mem : M) : Prop :=
  ∀ state, (system F world input mem).Reachable (.running state) → QuietAt input checks state

def untilOverflow (F : Function) (checks : Id → Prop) (world : World M) (input : List Val) (mem : M) :
    Transition.System (Config M) (Option Action) :=
  (system F world input mem).restrict fun config _ => ∀ state, config = .running state → QuietAt input checks state

def NoneOverflowed (checks : List Id) (state : State M) : Prop :=
  ∀ wo ∈ checks, ∀ value, state.env wo = some value → ∃ result, value = .checked result false

section
variable {F G : Function} {answers : Id → Operands} {preserved : PreservedAnalyses} {removable : List Id}
  {world : World M} {input : List Val} {mem : M}

theorem NoneOverflowed.step (wellFormed : WellFormed F) (collected : removable ⊆ collectOverflowInstructions F)
    {state after : State M} {seen : Option Action} (reached : (system F world input mem).Reachable (.running state))
    (quiet : QuietAt input (· ∈ removable) state) (holds : NoneOverflowed removable state)
    (taken : Step F world input (.running state) seen (.running after)) : NoneOverflowed removable after := by
  intro wo listed value known
  obtain ⟨home, before, found, check, member, rfl, test⟩ := mem_collect (collected listed) wellFormed
  generalize target : Config.running after = config at taken
  cases taken with
  | @inst _ inst rest args seen result next read executed =>
    cases result with
    | none => cases target
    | some result =>
      cases target
      by_cases same : inst.id = check.id
      · obtain ⟨block, here, inside⟩ := reachable_within reached
        obtain rfl := wellFormed.same_inst found here member (inside (next ▸ .head _)) same
        obtain rfl : result.1 = value := by simpa [Env.set] using known
        generalize op : inst.op = code at executed test
        cases executed with
        | pure evaluated => exact quiet inst rest args _ next listed read (op ▸ evaluated)
        | call _ => cases test
        | other _ => cases test
      · exact holds check.id listed value (by simpa [Env.set, Ne.symm same] using known)
  | jump ended here goes there enters =>
    cases target
    have kept := assign_other enters (wellFormed.inst_not_phi found there member)
    exact holds check.id listed value (kept ▸ known)
  | ret ended here returns read => cases target

theorem bit_step (wellFormed : WellFormed F) {state : State M}
    (reached : (system F world input mem).Reachable (.running state)) (holds : NoneOverflowed removable state)
    {inst : Inst} {rest : List Inst} (next : state.rest = inst :: rest) (gone : inst.id ∈ removedBits F removable)
    (seen : Option Action) (config : Config M) : Step F world input (.running state) seen config ↔
      seen = none ∧ config = .running { state with rest, env := state.env.set inst.id (.bool false) } := by
  obtain ⟨wo, taken, listed⟩ := mem_removedBits.mp gone
  obtain ⟨label, block, here, bit, member, named, op, operands⟩ := mem_overflowBits wellFormed listed
  obtain ⟨block', here', inside⟩ := reachable_within reached
  obtain rfl := wellFormed.same_inst here here' member (inside (next ▸ .head _)) named.symm
  have read : Reads F state.label state.rest (.inst wo) := by
    rw [next]
    exact .inst (by rw [operands]; exact .head _)
  obtain ⟨value, known⟩ := Option.isSome_iff_exists.mp (wellFormed.read_isSome reached read)
  obtain ⟨result, rfl⟩ := holds wo taken value known
  have args : evalAll input state.env inst.operands = some [.checked result false] := by
    simp [operands, evalAll, Operand.eval, known]
  have evaluated : inst.op.eval [.checked result false] = some (.bool false) := by
    rw [op]
    rfl
  constructor
  · intro step
    cases step with
    | inst next' read' executed =>
      rw [next] at next'
      cases next'
      rw [args] at read'
      cases read'
      generalize inst.op = code at executed op evaluated
      cases executed with
      | pure again =>
        rw [evaluated] at again
        cases again
        exact ⟨rfl, rfl⟩
      | call _ => cases op
      | abort _ => cases op
      | other _ => cases op
    | jump ended => simp [next] at ended
    | ret ended => simp [next] at ended
  · rintro ⟨rfl, rfl⟩
    exact .evaluates next args evaluated

/-- A state that is reached, and no overflow on the way. -/
structure SoFar (F : Function) (checks : List Id) (world : World M) (input : List Val) (mem : M) (config : Config M) :
    Prop where
  reached : (system F world input mem).Reachable config
  quiet : ∀ state, config = .running state → NoneOverflowed checks state

theorem SoFar.initial {config : Config M} (start : (system F world input mem).start config) :
    SoFar F removable world input mem config := by
  refine ⟨.initial start, fun state same wo _ value known => ?_⟩
  obtain ⟨block, here, rfl⟩ := start
  cases same
  cases known

theorem SoFar.step (wellFormed : WellFormed F) (collected : removable ⊆ collectOverflowInstructions F)
    {before after : Config M} {event : Option Action} (holds : SoFar F removable world input mem before)
    (quiet : ∀ state, before = .running state → QuietAt input (· ∈ removable) state)
    (taken : Step F world input before event after) : SoFar F removable world input mem after := by
  refine ⟨holds.reached.step taken, fun state same => ?_⟩
  subst same
  cases before with
  | running source => exact (holds.quiet source rfl).step wellFormed collected holds.reached (quiet source rfl) taken
  | returned => cases taken
  | aborted => cases taken

/-- Nothing is asked of the analyses: up to the first overflow at a check that was taken out its
bit is `false`, and the branch on it goes where it would have gone. -/
theorem unchanged_until_overflow (F G : Function) (answers : Id → Operands) (preserved : PreservedAnalyses)
    (world : World M) (input : List Val) (mem : M) (wellFormed : WellFormed F)
    (ran : signedOverflowOptimize F answers = some (G, preserved)) (first config : Config M)
    (events : List (Option Action)) (start : (system F world input mem).start first)
    (run : (untilOverflow F (Removed F answers) world input mem).Run first events config) :
    Behaves G world input mem (Transition.visible events) := by
  obtain ⟨removable, members, rfl, _⟩ := signedOverflowOptimize_result wellFormed ran
  have collected : removable ⊆ collectOverflowInstructions F := fun check taken =>
    removed_collected ((members check).mp taken)
  have rewritten := withoutBits_rewritten wellFormed removable
  obtain ⟨source, target, starts, starts', tracks⟩ := rewritten.start anywhere world input mem
  cases (starts first).mp start
  have follows : Transition.Simulates (untilOverflow F (Removed F answers) world input mem)
      (system (withoutBits F (removedBits F removable)) world input mem) fun config answer =>
        SoFar F removable world input mem config ∧
          ConfigTracks F (withoutBits F (removedBits F removable)) (removedBits F removable)
            (folded (removedBits F removable)) anywhere config answer := by
    refine rewritten.answers_forward ?_ ?_ ?_
    · intro before event after holds ⟨quiet, taken⟩
      refine ⟨taken, holds.step wellFormed collected (fun state same => ?_) taken⟩
      exact fun inst rest args value next listed => quiet state same inst rest args value next ((members inst.id).mp listed)
    · intro state inst rest holds next gone
      have only := bit_step wellFormed holds.reached (holds.quiet state rfl) next gone
      exact ⟨.bool false, if_pos gone, fun seen config => (only seen config).mp⟩
    · intro state block cont _ _ _ straight _
      rw [straightened_nil] at straight
      cases straight
  obtain ⟨answered, final, run', seen, _⟩ := follows.run ⟨SoFar.initial start, .running tracks⟩ run
  exact ⟨_, final, answered, (starts' _).mpr rfl, run', seen⟩

/-! One more than the argument, where ScalarEvolution knows the argument to be below 100. -/

private def nextArgument : Inst := ⟨1, .withOverflow .add true, [.arg 0, .const (.int 32 1)]⟩

private def nextOverflows : Inst := ⟨2, .extractValue 1, [.inst 1]⟩

private def reportNext : Inst := ⟨3, .call (some "__ubsan_handle_add_overflow"), []⟩

private def nextSum : Inst := ⟨4, .extractValue 0, [.inst 1]⟩

def nextOf (last : Terminator) : Function where
  sret := [false]
  entry := 0
  blocks := [
    (0, { phis := [], insts := [nextArgument, nextOverflows], term := .condBr (.inst 2) 1 2 }),
    (1, { phis := [], insts := [reportNext], term := last }),
    (2, { phis := [], insts := [nextSum], term := .ret (some (.inst 4)) })]

def nextOfOptimized (last : Terminator) : Function where
  sret := [false]
  entry := 0
  blocks := [
    (0, { phis := [], insts := [nextArgument], term := .condBr (.const (.bool false)) 1 2 }),
    (1, { phis := [], insts := [reportNext], term := last }),
    (2, { phis := [], insts := [nextSum], term := .ret (some (.inst 4)) })]

def belowHundred : Operands where
  width := 32
  positive := by decide
  lhs := ⟨⟨0, 100⟩, none, none⟩
  rhs := ⟨⟨1, 2⟩, none, none⟩
  lhsValid := by
    refine ⟨by decide, ?_, ?_⟩ <;> rintro _ ⟨⟩
  rhsValid := by
    refine ⟨by decide, ?_, ?_⟩ <;> rintro _ ⟨⟩

theorem nextOf_wellFormed : WellFormed (nextOf .unreachable) where
  labels := by decide
  names := by decide
  rooted := by decide
  entry := by decide
  closed := by decide
  arity := by decide
  dominated := Function.wellScoped_dominated (fun label => if label = 0 then [] else [1, 2]) (by decide)

theorem nextOf_optimized :
    signedOverflowOptimize (nextOf .unreachable) (fun _ => belowHundred) = some (nextOfOptimized .unreachable, ⟨false⟩) := by
  decide +kernel

private theorem removed_next {check : Id} (removed : Removed (nextOf .unreachable) (fun _ => belowHundred) check) :
    check = 1 :=
  List.mem_singleton.mp (removed_collected removed)

private abbrev startNext : Env := fun _ => none

private abbrev checkedNext : Env := startNext.set nextArgument.id (.checked (.int 32 42) false)

private abbrev testedNext : Env := checkedNext.set nextOverflows.id (.bool false)

private theorem quiet_next (label : Label) (rest : List Inst) (env : Env) (other : ∀ inst ∈ rest, inst.id ≠ 1)
    (state : State Unit) (same : Config.running ⟨label, rest, env, ()⟩ = .running state) :
    QuietAt [.int 32 41] (Removed (nextOf .unreachable) (fun _ => belowHundred)) state := by
  cases same
  intro inst later args value next removed
  cases next
  exact absurd (removed_next removed) (other inst (.head _))

theorem unchanged_next : Behaves (nextOfOptimized .unreachable) reporting [.int 32 41] () [.ret (some (.int 32 42))] := by
  have check : Step (nextOf .unreachable) reporting [.int 32 41]
      (.running ⟨0, [nextArgument, nextOverflows], startNext, ()⟩) none
      (.running ⟨0, [nextOverflows], checkedNext, ()⟩) := .evaluates rfl rfl rfl
  have bit : Step (nextOf .unreachable) reporting [.int 32 41] (.running ⟨0, [nextOverflows], checkedNext, ()⟩) none
      (.running ⟨0, [], testedNext, ()⟩) := .evaluates rfl rfl rfl
  have jump : Step (nextOf .unreachable) reporting [.int 32 41] (.running ⟨0, [], testedNext, ()⟩) none
      (.running ⟨2, [nextSum], testedNext, ()⟩) := .jumps rfl rfl rfl rfl rfl rfl
  have sum : Step (nextOf .unreachable) reporting [.int 32 41] (.running ⟨2, [nextSum], testedNext, ()⟩) none
      (.running ⟨2, [], testedNext.set nextSum.id (.int 32 42), ()⟩) := .evaluates rfl rfl rfl
  have result : Step (nextOf .unreachable) reporting [.int 32 41]
      (.running ⟨2, [], testedNext.set nextSum.id (.int 32 42), ()⟩) (some (.ret ([.int 32 42] : List Val).head?)) .returned :=
    .ret rfl rfl rfl rfl
  have first (state : State Unit)
      (same : Config.running ⟨0, [nextArgument, nextOverflows], startNext, ()⟩ = .running state) :
      QuietAt [.int 32 41] (Removed (nextOf .unreachable) (fun _ => belowHundred)) state := by
    cases same
    intro inst rest args value next _ read evaluated
    cases next
    cases read
    cases evaluated
    exact ⟨.int 32 42, rfl⟩
  exact unchanged_until_overflow _ _ _ _ _ _ _ nextOf_wellFormed nextOf_optimized _ _ _ ⟨_, rfl, rfl⟩
    (.head ⟨first, check⟩ (.head ⟨quiet_next _ _ _ (by decide), bit⟩ (.head ⟨quiet_next _ _ _ (by decide), jump⟩
      (.head ⟨quiet_next _ _ _ (by decide), sum⟩ (.single ⟨quiet_next _ _ _ (by decide), result⟩)))))

theorem bits_silent (wellFormed : WellFormed F) (collected : removable ⊆ collectOverflowInstructions F)
    (never : NeverOverflows F (· ∈ removable) world input mem) :
    Silent F (removedBits F removable) (folded (removedBits F removable)) world input mem := by
  have invariant : (system F world input mem).Invariant (SoFar F removable world input mem) := by
    refine ⟨fun _ start => SoFar.initial start, fun before event after holds taken => ?_⟩
    refine holds.step wellFormed collected (fun state same => ?_) taken
    subst same
    exact never state holds.reached
  intro state inst rest reached next gone
  have holds := (invariant.reachable reached).quiet state rfl
  exact ⟨.bool false, if_pos gone, bit_step wellFormed reached holds next gone⟩

/-- What the pass leaves behaves the same if the checks it took out never overflow. -/
theorem optimized_behaves (wellFormed : WellFormed F) (ran : signedOverflowOptimize F answers = some (G, preserved))
    (never : NeverOverflows F (Removed F answers) world input mem) (trace : List Action) :
    Behaves F world input mem trace ↔ Behaves G world input mem trace := by
  obtain ⟨removable, members, rfl, _⟩ := signedOverflowOptimize_result wellFormed ran
  have collected : removable ⊆ collectOverflowInstructions F := fun check taken =>
    removed_collected ((members check).mp taken)
  have never : NeverOverflows F (· ∈ removable) world input mem :=
    fun state reached inst rest args value next taken =>
      never state reached inst rest args value next ((members inst.id).mp taken)
  refine (withoutBits_rewritten wellFormed removable).same_behaviours wellFormed
    (bits_silent wellFormed collected never) ?_ trace
  intro state block cont _ _ _ straight _
  rw [straightened_nil] at straight
  cases straight

end
end RoboticsRt.Ubsan

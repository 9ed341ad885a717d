import RoboticsRt.Proofs.Tracking

/-! Erasing instructions that only ever compute what stands for them. The rewritten function
does what the original does as long as the branches that became unconditional are taken the
way they now go. -/

namespace RoboticsRt.Ubsan
open Llvm

variable {M : Type}

/-- The actions of some execution, up to some point. -/
def Behaves (F : Function) (world : World M) (input : List Val) (mem : M) (trace : List Action) : Prop :=
  ∃ first config events, (system F world input mem).start first ∧ (system F world input mem).Run first events config ∧
    Transition.visible events = trace

/-- All that an erased instruction can do is to compute what stands for it. -/
def Silent (F : Function) (erased : List Id) (values : Subst) (world : World M) (input : List Val) (mem : M) : Prop :=
  ∀ state inst rest, (system F world input mem).Reachable (.running state) → state.rest = inst :: rest →
    inst.id ∈ erased → ∃ value, values inst.id = some value ∧ ∀ seen config,
      Step F world input (.running state) seen config ↔
        seen = none ∧ config = .running { state with rest, env := state.env.set inst.id value }

/-- Executions leave a block whose branch was rewritten for the block it now jumps to. Only blocks
that the rewritten function still has are asked. -/
def Continues (F G : Function) (checks : List Id) (world : World M) (input : List Val) (mem : M) : Prop :=
  ∀ state block cont, (system F world input mem).Reachable (.running state) → state.rest = [] →
    F.block? state.label = some block → straightened F checks state.label = some cont →
    (G.block? state.label).isSome → block.term.goto input state.env = some cont

/-- Every name counts as read. -/
abbrev anywhere : Label → List Inst → Id → Prop := fun _ _ _ => True

theorem anywhere_liveness (F : Function) : Liveness F anywhere := by
  constructor <;> intros <;> trivial

private abbrev Side (F G : Function) (erased : List Id) (values : Subst) (world : World M) (input : List Val) (mem : M)
    (config answer : Config M) : Prop :=
  (system F world input mem).Reachable config ∧ ConfigTracks F G erased values anywhere config answer

section
variable {F G : Function} {checks erased : List Id} {values : Subst} {world : World M} {input : List Val} {mem : M}

/-- The rewritten function answers every step that keeps to the states of which this is known. -/
theorem Rewritten.answers_forward (rewritten : Rewritten F checks erased values G)
    {within : Transition.System (Config M) (Option Action)} {known : Config M → Prop}
    (keeps : ∀ before event after, known before → within.step before event after →
      Step F world input before event after ∧ known after)
    (silent : ∀ state inst rest, known (.running state) → state.rest = inst :: rest → inst.id ∈ erased →
      ∃ value, values inst.id = some value ∧ ∀ seen config, Step F world input (.running state) seen config →
        seen = none ∧ config = .running { state with rest, env := state.env.set inst.id value })
    (continues : ∀ state block cont, known (.running state) → state.rest = [] → F.block? state.label = some block →
      straightened F checks state.label = some cont → (G.block? state.label).isSome →
      block.term.goto input state.env = some cont) :
    Transition.Simulates within (system G world input mem)
      fun config answer => known config ∧ ConfigTracks F G erased values anywhere config answer := by
  intro before event after other ⟨holds, tracks⟩ taken
  obtain ⟨taken, later⟩ := keeps before event after holds taken
  cases tracks with
  | @running state target tracks =>
    by_cases gone : ∃ inst rest, state.rest = inst :: rest ∧ inst.id ∈ erased
    · obtain ⟨inst, rest, next, listed⟩ := gone
      obtain ⟨value, stands, only⟩ := silent state inst rest holds next listed
      obtain ⟨rfl, rfl⟩ := only _ _ taken
      exact ⟨[], _, .refl _, rfl, later, .running (tracks.skip (anywhere_liveness F) next listed stands)⟩
    · have kept : ∀ inst rest, state.rest = inst :: rest → inst.id ∉ erased :=
        fun inst rest next listed => gone ⟨inst, rest, next, listed⟩
      obtain ⟨answer, step, same⟩ := tracks.step (anywhere_liveness F) rewritten taken kept
        fun ended block cont label here straight goes => by
          rw [continues state block cont holds ended here straight tracks.left] at goes
          cases goes
          rfl
      exact ⟨[event], answer, .single step, rfl, later, same⟩
  | returned => cases taken
  | aborted => cases taken

private theorem runs_through (silent : Silent F erased values world input mem) {state target : State M}
    (reached : (system F world input mem).Reachable (.running state))
    (tracks : Tracks F G erased values anywhere state target) :
    ∃ events caught, (system F world input mem).Run (.running state) events (.running caught) ∧
      Transition.visible events = [] ∧ Tracks F G erased values anywhere caught target ∧
      ∀ inst rest, caught.rest = inst :: rest → inst.id ∉ erased := by
  generalize pending : state.rest = rest
  induction rest generalizing state with
  | nil => exact ⟨[], state, .refl _, rfl, tracks, fun inst rest next => by simp [pending] at next⟩
  | cons inst rest ih =>
    by_cases listed : inst.id ∈ erased
    · obtain ⟨value, stands, only⟩ := silent state inst rest reached pending listed
      have step : Step F world input (.running state) none _ := (only _ _).mpr ⟨rfl, rfl⟩
      obtain ⟨events, caught, run, quiet, same⟩ :=
        ih (reached.step step) (tracks.skip (anywhere_liveness F) pending listed stands) rfl
      exact ⟨none :: events, caught, .head step run, quiet, same⟩
    · refine ⟨[], state, .refl _, rfl, tracks, fun other rest' next => ?_⟩
      rw [pending] at next
      cases next
      exact listed

private theorem answers_backward (wellFormed : WellFormed F) (rewritten : Rewritten F checks erased values G)
    (silent : Silent F erased values world input mem) (continues : Continues F G checks world input mem) :
    Transition.Simulates (system G world input mem) (system F world input mem)
      fun answer config => Side F G erased values world input mem config answer := by
  intro before event after other ⟨reached, tracks⟩ taken
  cases tracks with
  | running tracks =>
    obtain ⟨events, caught, run, quiet, tracks, kept⟩ := runs_through silent reached tracks
    have reached := reached.run run
    obtain ⟨config, step, same⟩ := tracks.step_back (anywhere_liveness F) rewritten
      (fun _ read => wellFormed.read_isSome reached read) taken kept fun ended block cont here straight =>
        continues caught block cont reached ended here straight tracks.left
    refine ⟨events ++ [event], config, run.tail step, ?_, reached.step step, same⟩
    rw [Transition.visible_append, quiet, List.nil_append]
  | returned => cases taken
  | aborted => cases taken

private theorem steps_forward (rewritten : Rewritten F checks erased values G)
    (silent : Silent F erased values world input mem) (continues : Continues F G checks world input mem) :
    Transition.Simulates (system F world input mem) (system G world input mem) (Side F G erased values world input mem) := by
  refine rewritten.answers_forward (fun _ _ _ reached taken => ⟨taken, reached.step taken⟩) ?_ continues
  intro state inst rest reached next listed
  obtain ⟨value, stands, only⟩ := silent state inst rest reached next listed
  exact ⟨value, stands, fun seen config => (only seen config).mp⟩

/-- The original may first have to run through what was erased, and the rewritten function stays
where it is while the original does. An observer sees neither. -/
theorem Rewritten.same_behaviours (wellFormed : WellFormed F) (rewritten : Rewritten F checks erased values G)
    (silent : Silent F erased values world input mem) (continues : Continues F G checks world input mem)
    (trace : List Action) : Behaves F world input mem trace ↔ Behaves G world input mem trace := by
  obtain ⟨source, target, starts, starts', tracks⟩ := rewritten.start anywhere world input mem
  have together : Side F G erased values world input mem (.running source) (.running target) :=
    ⟨.initial ((starts _).mpr rfl), .running tracks⟩
  constructor
  · rintro ⟨first, config, events, start, run, rfl⟩
    cases (starts first).mp start
    obtain ⟨answered, final, run', seen, _⟩ := (steps_forward rewritten silent continues).run together run
    exact ⟨_, final, answered, (starts' _).mpr rfl, run', seen⟩
  · rintro ⟨first, config, events, start, run, rfl⟩
    cases (starts' first).mp start
    obtain ⟨answered, final, run', seen, _⟩ := (answers_backward wellFormed rewritten silent continues).run together run
    exact ⟨_, final, answered, (starts _).mpr rfl, run', seen⟩

/-- Executions stay inside the blocks that the rewritten function still has. -/
theorem Rewritten.stays_inside (rewritten : Rewritten F checks erased values G)
    (silent : Silent F erased values world input mem) (continues : Continues F G checks world input mem)
    {state : State M} (reached : (system F world input mem).Reachable (.running state)) :
    (G.block? state.label).isSome := by
  obtain ⟨source, target, starts, _, tracks⟩ := rewritten.start anywhere world input mem
  obtain ⟨first, events, start, run⟩ := reached
  cases (starts first).mp start
  obtain ⟨_, final, _, _, _, same⟩ := (steps_forward rewritten silent continues).run ⟨.initial start, .running tracks⟩ run
  cases same with
  | running tracks => exact tracks.left

end
end RoboticsRt.Ubsan

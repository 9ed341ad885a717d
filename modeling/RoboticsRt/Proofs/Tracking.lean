import RoboticsRt.Proofs.Rewrite

/-! Running a function and its rewriting side by side. The rewritten function reads what
the original reads once the replaced names are filled in. -/

namespace RoboticsRt.Ubsan
open Llvm

theorem assign_rewritten {G : Function} {values : Subst} {input : List Val} {old env : Env} {pred : Label}
    (here : (G.block? pred).isSome) {before after : List Phi} (phis : List.Forall₂ (PhiRewritten G values) before after)
    (kept : ∀ phi ∈ before, values phi.id = none) :
    assign input (old.patch values) pred before (env.patch values) =
      (assign input old pred after env).map (Env.patch values) := by
  induction phis generalizing env with
  | nil => rfl
  | @cons p q _ _ same _ ih =>
    simp only [assign, same.incoming pred here, same.id]
    cases p.incoming.lookup pred with
    | none => rfl
    | some operand =>
      simp only [Option.map_some, Option.bind_eq_bind, Option.bind_some, Operand.eval_subst]
      cases operand.eval input (old.patch values) with
      | none => rfl
      | some value =>
        rw [Option.bind_some, Option.bind_some, ← ih fun phi later => kept phi (.tail _ later),
          Env.patch_set (kept p (.head _))]

/-! Two states at the same place. -/

/-- Names that matter at a place: at least those that are read from there on. -/
structure Liveness (F : Function) (live : Label → List Inst → Id → Prop) : Prop where
  reads : ∀ label rest id, Reads F label rest (.inst id) → live label rest id
  skip : ∀ label inst rest id, live label rest id → id ≠ inst.id → live label (inst :: rest) id
  edge : ∀ label block target next id, F.block? label = some block → target ∈ block.term.successors →
    F.block? target = some next → live target next.insts id → id ∉ next.phis.map Phi.id → live label [] id

variable {M : Type}

structure Tracks (F G : Function) (erased : List Id) (values : Subst) (live : Label → List Inst → Id → Prop)
    (source target : State M) : Prop where
  label : target.label = source.label
  rest : target.rest = (source.rest.filter (·.id ∉ erased)).map (Inst.subst values)
  mem : target.mem = source.mem
  env : ∀ id, live source.label source.rest id → source.env.Below (target.env.patch values) id
  within : ∃ before, F.block? source.label = some before ∧ source.rest ⊆ before.insts
  left : (G.block? source.label).isSome

inductive ConfigTracks (F G : Function) (erased : List Id) (values : Subst) (live : Label → List Inst → Id → Prop) :
    Config M → Config M → Prop where
  | running {source target} (tracks : Tracks F G erased values live source target) :
      ConfigTracks F G erased values live (.running source) (.running target)
  | returned : ConfigTracks F G erased values live .returned .returned
  | aborted : ConfigTracks F G erased values live .aborted .aborted

section
variable {F G : Function} {checks erased : List Id} {values : Subst} {live : Label → List Inst → Id → Prop}
  {source target : State M} {world : World M}

theorem Rewritten.keeps_inst (rewritten : Rewritten F checks erased values G) {label : Label} {before : BasicBlock}
    (here : F.block? label = some before) (left : (G.block? label).isSome) {inst : Inst}
    (member : inst ∈ before.insts) (kept : inst.id ∉ erased) : values inst.id = none := by
  obtain ⟨after, found⟩ := Option.isSome_iff_exists.mp left
  obtain ⟨before', original, block⟩ := rewritten.block label after found
  rw [here] at original
  cases original
  have survives : inst.subst values ∈ after.insts := by
    rw [block.insts]
    exact List.mem_map_of_mem (List.mem_filter.mpr ⟨member, decide_eq_true kept⟩)
  by_contra known
  have defined : (inst.subst values).id ∈ after.defs := BasicBlock.inst_def survives
  exact rewritten.gone inst.id (Option.isSome_iff_ne_none.mpr known) label after found defined

theorem Rewritten.keeps_phi (rewritten : Rewritten F checks erased values G) {label : Label} {before : BasicBlock}
    (here : F.block? label = some before) (left : (G.block? label).isSome) :
    ∀ phi ∈ before.phis, values phi.id = none := by
  intro phi member
  obtain ⟨after, found⟩ := Option.isSome_iff_exists.mp left
  obtain ⟨before', original, block⟩ := rewritten.block label after found
  rw [here] at original
  cases original
  by_contra known
  apply rewritten.gone phi.id (Option.isSome_iff_ne_none.mpr known) label after found
  apply List.mem_append_left
  rw [block.phi_ids]
  exact List.mem_map_of_mem member

theorem Tracks.skip (tracks : Tracks F G erased values live source target) (liveness : Liveness F live)
    {inst : Inst} {rest : List Inst} (next : source.rest = inst :: rest) (gone : inst.id ∈ erased) {value : Val}
    (stands : values inst.id = some value) :
    Tracks F G erased values live { source with rest, env := source.env.set inst.id value } target where
  label := tracks.label
  rest := by rw [tracks.rest, next, List.filter_cons_of_neg (by simpa using gone)]
  mem := tracks.mem
  env id alive known found := by
    by_cases same : id = inst.id
    · subst same
      simp only [Env.set, if_pos] at found
      simp [Env.patch, stands, found]
    · simp only [Env.set, if_neg same] at found
      exact tracks.env id (next ▸ liveness.skip source.label inst rest id alive same) known found
  within := by
    obtain ⟨before, here, inside⟩ := tracks.within
    exact ⟨before, here, fun _ member => inside (next ▸ .tail _ member)⟩
  left := tracks.left

/-- An instruction that stays has the same outcome on both sides. -/
theorem Tracks.resume (tracks : Tracks F G erased values live source target) (liveness : Liveness F live)
    (rewritten : Rewritten F checks erased values G) {inst : Inst} {rest : List Inst}
    (next : source.rest = inst :: rest) (kept : inst.id ∉ erased) :
    ∃ rest', target.rest = inst.subst values :: rest' ∧ ∀ result,
      ConfigTracks F G erased values live (source.resume rest inst.id result) (target.resume rest' inst.id result) := by
  obtain ⟨before, here, inside⟩ := tracks.within
  refine ⟨(rest.filter (·.id ∉ erased)).map (Inst.subst values), ?_, ?_⟩
  · rw [tracks.rest, next, List.filter_cons_of_pos (by simpa using kept), List.map_cons]
  · rintro (_ | ⟨value, mem⟩)
    · exact .aborted
    · refine .running ⟨tracks.label, rfl, rfl, fun id alive => ?_, ⟨before, here, ?_⟩, tracks.left⟩
      · rw [Env.patch_set (rewritten.keeps_inst here tracks.left (inside (next ▸ .head _)) kept)]
        apply Env.Below.set
        intro differs
        exact tracks.env id (next ▸ liveness.skip source.label inst rest id alive differs)
      · exact fun _ member => inside (next ▸ .tail _ member)

theorem Tracks.enter (tracks : Tracks F G erased values live source target) (liveness : Liveness F live)
    (rewritten : Rewritten F checks erased values G) {input : List Val} (ended : source.rest = [])
    {block next after : BasicBlock} {label : Label} {env : Env} (here : F.block? source.label = some block)
    (edge : label ∈ block.term.successors) (there : F.block? label = some next) (found : G.block? label = some after)
    (enters : assign input source.env source.label next.phis source.env = some env) :
    ∃ env', assign input target.env target.label after.phis target.env = some env' ∧
      Tracks F G erased values live ⟨label, next.insts, env, source.mem⟩ ⟨label, after.insts, env', target.mem⟩ := by
  have alive := tracks.env
  rw [ended] at alive
  obtain ⟨next', original, rewrites⟩ := rewritten.block label after found
  rw [there] at original
  cases original
  have reads : ∀ phi ∈ next.phis, ∀ id, phi.incoming.lookup source.label = some (.inst id) →
      source.env.Below (target.env.patch values) id := by
    intro phi member id incoming
    exact alive id (liveness.reads _ _ id (.phi here edge there member incoming))
  obtain ⟨wider, assigned, known⟩ : ∃ wider, assign input (target.env.patch values) source.label next.phis
      (target.env.patch values) = some wider ∧ _ := assign_below reads enters
  have left : (G.block? label).isSome := by rw [found]; rfl
  rw [assign_rewritten tracks.left rewrites.phis (rewritten.keeps_phi there left), Option.map_eq_some_iff] at assigned
  obtain ⟨env', assigned, rfl⟩ := assigned
  rw [tracks.label]
  refine ⟨env', assigned, rfl, rewrites.insts, tracks.mem, fun id aliveThere => ?_, ⟨next, there, fun _ m => m⟩, left⟩
  apply known id
  intro absent
  exact alive id (liveness.edge _ block label next id here edge there aliveThere absent)

/-- The rewritten function answers a step, unless an erased instruction is next or a
rewritten branch goes to the handler. -/
theorem Tracks.step (tracks : Tracks F G erased values live source target) (liveness : Liveness F live)
    (rewritten : Rewritten F checks erased values G) {input : List Val} {seen : Option Action} {config : Config M}
    (taken : Step F world input (.running source) seen config)
    (kept : ∀ inst rest, source.rest = inst :: rest → inst.id ∉ erased)
    (continues : source.rest = [] → ∀ block cont label, F.block? source.label = some block →
      straightened F checks source.label = some cont → block.term.goto input source.env = some label → label = cont) :
    ∃ answer, Step G world input (.running target) seen answer ∧ ConfigTracks F G erased values live config answer := by
  have alive := tracks.env
  obtain ⟨after, found⟩ := Option.isSome_iff_exists.mp tracks.left
  obtain ⟨before, original, rewrites⟩ := rewritten.block _ after found
  cases taken with
  | @inst _ inst rest args seen result next read executed =>
    obtain ⟨rest', next', same⟩ := tracks.resume liveness rewritten next (kept inst rest next)
    have read' : evalAll input target.env (inst.subst values).operands = some args := by
      rw [Inst.subst, evalAll_subst]
      refine evalAll_below (fun id operand => alive id ?_) read
      rw [next]
      exact liveness.reads _ _ id (.inst operand)
    exact ⟨_, .inst next' read' (tracks.mem ▸ executed), same result⟩
  | @jump _ block label next env ended here goes there enters =>
    rw [here] at original
    obtain rfl := Option.some.inj original
    rw [ended] at alive
    have ended' : target.rest = [] := by rw [tracks.rest, ended]; rfl
    have goes' : after.term.goto input target.env = some label := by
      rw [rewrites.term]
      cases straight : straightened F checks source.label with
      | some cont => rw [continues ended block cont label here straight goes]; rfl
      | none =>
        dsimp only
        rw [Terminator.goto_subst]
        exact Terminator.goto_below (fun id operand => alive id (liveness.reads _ _ id (.term here operand))) goes
    obtain ⟨next', found'⟩ := Option.isSome_iff_exists.mp
      (rewritten.closed _ after found label (goto_successor goes'))
    obtain ⟨env', enters', same⟩ :=
      tracks.enter liveness rewritten ended here (goto_successor goes) there found' enters
    refine ⟨_, .jump ended' (tracks.label ▸ found) goes' found' enters', ?_⟩
    exact .running same
  | @ret _ block value result ended here returns read =>
    rw [here] at original
    obtain rfl := Option.some.inj original
    rw [ended] at alive
    have ended' : target.rest = [] := by rw [tracks.rest, ended]; rfl
    have returns' : after.term = .ret (value.map (Operand.subst values)) := by
      rw [rewrites.term]
      cases straight : straightened F checks source.label with
      | none => rw [returns]; rfl
      | some cont =>
        obtain ⟨block', cond, ifTrue, ifFalse, here', term, _⟩ := straightened_branch straight
        rw [here] at here'
        cases here'
        rw [returns] at term
        cases term
    have read' : evalAll input target.env (value.map (Operand.subst values)).toList = some result := by
      rw [Option.toList_map, evalAll_subst]
      refine evalAll_below (fun id operand => alive id (liveness.reads _ _ id (.term here ?_))) read
      rw [returns]
      exact operand
    exact ⟨_, .ret ended' (tracks.label ▸ found) returns' read', .returned⟩

theorem Tracks.known (tracks : Tracks F G erased values live source target) (liveness : Liveness F live)
    (defined : ∀ id, Reads F source.label source.rest (.inst id) → (source.env id).isSome) {id : Id}
    (read : Reads F source.label source.rest (.inst id)) : (target.env.patch values).Below source.env id := by
  intro value found
  obtain ⟨original, known⟩ := Option.isSome_iff_exists.mp (defined id read)
  have same := tracks.env id (liveness.reads _ _ id read) original known
  rw [found] at same
  rw [known, same]

theorem Tracks.enter_back (tracks : Tracks F G erased values live source target)
    (rewritten : Rewritten F checks erased values G) {input : List Val}
    (known : ∀ id, Reads F source.label [] (.inst id) → (target.env.patch values).Below source.env id)
    {block after : BasicBlock} {label : Label} {env' : Env} (here : F.block? source.label = some block)
    (edge : label ∈ block.term.successors) (found : G.block? label = some after)
    (enters : assign input target.env target.label after.phis target.env = some env') :
    ∃ next env, F.block? label = some next ∧
      assign input source.env source.label next.phis source.env = some env := by
  obtain ⟨next, there, rewrites⟩ := rewritten.block label after found
  have left : (G.block? label).isSome := by rw [found]; rfl
  have patched : assign input (target.env.patch values) source.label next.phis (target.env.patch values) =
      some (env'.patch values) := by
    rw [assign_rewritten tracks.left rewrites.phis (rewritten.keeps_phi there left), ← tracks.label, enters]
    rfl
  have reads : ∀ phi ∈ next.phis, ∀ id, phi.incoming.lookup source.label = some (.inst id) →
      (target.env.patch values).Below source.env id := by
    intro phi member id incoming
    exact known id (.phi here edge there member incoming)
  obtain ⟨env, enters', _⟩ : ∃ env, assign input source.env source.label next.phis source.env = some env ∧ _ :=
    assign_below reads patched
  exact ⟨next, env, there, enters'⟩

theorem BlockRewritten.goes_back {before after : BasicBlock} {input : List Val} {env env' : Env} {label : Label}
    (rewrites : BlockRewritten F G checks erased values source.label before after)
    (here : F.block? source.label = some before)
    (known : ∀ id, Reads F source.label [] (.inst id) → (env'.patch values).Below env id)
    (continues : ∀ cont, straightened F checks source.label = some cont → before.term.goto input env = some cont)
    (goes : after.term.goto input env' = some label) : before.term.goto input env = some label := by
  rw [rewrites.term] at goes
  cases straight : straightened F checks source.label with
  | some cont =>
    rw [straight] at goes
    cases goes
    exact continues label straight
  | none =>
    rw [straight, Terminator.goto_subst] at goes
    exact Terminator.goto_below (fun id operand => known id (.term here operand)) goes

theorem BlockRewritten.returns_back {before after : BasicBlock} {input : List Val} {env env' : Env}
    {value : Option Llvm.Operand} {result : List Val}
    (rewrites : BlockRewritten F G checks erased values source.label before after)
    (here : F.block? source.label = some before)
    (known : ∀ id, Reads F source.label [] (.inst id) → (env'.patch values).Below env id)
    (returns : after.term = .ret value) (read : evalAll input env' value.toList = some result) :
    ∃ original, before.term = .ret original ∧ evalAll input env original.toList = some result := by
  rw [rewrites.term] at returns
  cases straight : straightened F checks source.label with
  | some cont =>
    rw [straight] at returns
    cases returns
  | none =>
    rw [straight] at returns
    obtain ⟨original, term, rfl⟩ := Terminator.of_subst_ret returns
    refine ⟨original, term, ?_⟩
    rw [Option.toList_map, evalAll_subst] at read
    refine evalAll_below (fun id operand => known id (.term here ?_)) read
    rw [term]
    exact operand

theorem Tracks.next_back (tracks : Tracks F G erased values live source target)
    (kept : ∀ inst rest, source.rest = inst :: rest → inst.id ∉ erased) :
    (target.rest = [] → source.rest = []) ∧ ∀ inst' rest', target.rest = inst' :: rest' →
      ∃ inst rest, source.rest = inst :: rest ∧ inst' = inst.subst values := by
  cases next : source.rest with
  | nil =>
    refine ⟨fun _ => rfl, fun inst' rest' next' => ?_⟩
    rw [tracks.rest, next] at next'
    cases next'
  | cons inst rest =>
    have same : target.rest = inst.subst values :: (rest.filter (·.id ∉ erased)).map (Inst.subst values) := by
      rw [tracks.rest, next, List.filter_cons_of_pos (by simpa using kept inst rest next), List.map_cons]
    rw [same]
    refine ⟨fun ended => absurd ended (List.cons_ne_nil _ _), fun inst' rest' next' => ?_⟩
    cases next'
    exact ⟨inst, rest, rfl, rfl⟩

/-- And the other way: the original answers a step, where all it reads has a value. -/
theorem Tracks.step_back (tracks : Tracks F G erased values live source target) (liveness : Liveness F live)
    (rewritten : Rewritten F checks erased values G) {input : List Val} {seen : Option Action} {answer : Config M}
    (defined : ∀ id, Reads F source.label source.rest (.inst id) → (source.env id).isSome)
    (taken : Step G world input (.running target) seen answer)
    (kept : ∀ inst rest, source.rest = inst :: rest → inst.id ∉ erased)
    (continues : source.rest = [] → ∀ block cont, F.block? source.label = some block →
      straightened F checks source.label = some cont → block.term.goto input source.env = some cont) :
    ∃ config, Step F world input (.running source) seen config ∧ ConfigTracks F G erased values live config answer := by
  have known : ∀ id, Reads F source.label source.rest (.inst id) → (target.env.patch values).Below source.env id :=
    fun _ read => tracks.known liveness defined read
  obtain ⟨ends, goesOn⟩ := tracks.next_back kept
  obtain ⟨after, found⟩ := Option.isSome_iff_exists.mp tracks.left
  obtain ⟨before, original, rewrites⟩ := rewritten.block _ after found
  cases taken with
  | @inst _ inst' rest' args seen result next' read executed =>
    obtain ⟨inst, rest, next, rfl⟩ := goesOn inst' rest' next'
    obtain ⟨rest'', next'', same⟩ := tracks.resume liveness rewritten next (kept inst rest next)
    rw [next'] at next''
    cases next''
    have read' : evalAll input source.env inst.operands = some args := by
      rw [Inst.subst, evalAll_subst] at read
      refine evalAll_below (fun id operand => known id ?_) read
      rw [next]
      exact .inst operand
    exact ⟨_, .inst next read' (tracks.mem ▸ executed), same result⟩
  | @jump _ block' label entered env' ended' here' goes' there' enters' =>
    have ended := ends ended'
    rw [tracks.label, found] at here'
    obtain rfl := Option.some.inj here'
    rw [ended] at known
    have goes : before.term.goto input source.env = some label :=
      rewrites.goes_back original known (fun cont straight => continues ended before cont original straight) goes'
    have edge := goto_successor goes
    obtain ⟨next, env, there, enters⟩ := tracks.enter_back rewritten known original edge there' enters'
    obtain ⟨same, assigned, sameTracks⟩ := tracks.enter liveness rewritten ended original edge there there' enters
    rw [enters'] at assigned
    cases assigned
    exact ⟨_, .jump ended original goes there enters, .running sameTracks⟩
  | @ret _ block' value result ended' here' returns' read =>
    have ended := ends ended'
    rw [tracks.label, found] at here'
    obtain rfl := Option.some.inj here'
    rw [ended] at known
    obtain ⟨value', term, read'⟩ := rewrites.returns_back original known returns' read
    exact ⟨_, .ret ended original term read', .returned⟩

/-- Both functions start in the same place, and each in one place only. -/
theorem Rewritten.start (rewritten : Rewritten F checks erased values G)
    (live : Label → List Inst → Id → Prop) (world : World M) (input : List Val) (mem : M) :
    ∃ source target, (∀ config, (system F world input mem).start config ↔ config = .running source) ∧
      (∀ config, (system G world input mem).start config ↔ config = .running target) ∧
      Tracks F G erased values live source target := by
  obtain ⟨after, found⟩ := Option.isSome_iff_exists.mp rewritten.rooted
  obtain ⟨before, original, rewrites⟩ := rewritten.block _ after found
  refine ⟨⟨F.entry, before.insts, fun _ => none, mem⟩, ⟨G.entry, after.insts, fun _ => none, mem⟩, ?_, ?_, ?_⟩
  · intro config
    simp [system, ← rewritten.entry, original]
  · intro config
    simp [system, found]
  · refine ⟨rewritten.entry, rewrites.insts, rfl, ?_, ⟨before, ?_, fun _ member => member⟩, ?_⟩
    · intro id _ value known
      cases known
    · rw [← rewritten.entry]
      exact original
    · rw [← rewritten.entry]
      exact rewritten.rooted

end
end RoboticsRt.Ubsan

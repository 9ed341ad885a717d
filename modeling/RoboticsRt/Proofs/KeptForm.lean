import RoboticsRt.Proofs.Shrinking

/-! The passes leave well-formed functions: names stay unique, branches stay inside, and a
definition still lies on every path to a use, since every path that is left was there before. -/

namespace RoboticsRt.Ubsan
open Llvm

/-- A path through what a pass left, and the path of the original it follows. -/
structure Shadows (G : Function) (erased : List Id) (values : Subst) (point shadow : Llvm.Point) : Prop where
  label : shadow.label = point.label
  rest : shadow.rest = (point.rest.filter (·.id ∉ erased)).map (Inst.subst values)
  defined : ∀ id ∈ point.defined, id ∉ erased → id ∈ shadow.defined
  left : (G.block? point.label).isSome

section
variable {F G : Function} {checks erased : List Id} {values : Subst}

theorem Shadows.skip {point shadow : Llvm.Point} (reached : (paths F).Reachable point)
    (shadows : Shadows G erased values point shadow) : ∃ ahead, (paths F).Reachable ahead ∧
      Shadows G erased values ahead shadow ∧ ∀ inst rest, ahead.rest = inst :: rest → inst.id ∉ erased := by
  obtain ⟨label, rest, defined⟩ := point
  induction rest generalizing defined with
  | nil => exact ⟨_, reached, shadows, fun inst rest next => by cases next⟩
  | cons inst rest ih =>
    by_cases gone : inst.id ∈ erased
    · refine ih (inst.id :: defined) (reached.step .inst) ⟨shadows.label, ?_, ?_, shadows.left⟩
      · rw [shadows.rest, List.filter_cons_of_neg (by simpa using gone)]
      · intro id member kept
        rcases List.mem_cons.mp member with rfl | earlier
        · exact absurd gone kept
        · exact shadows.defined id earlier kept
    · refine ⟨_, reached, shadows, fun other rest' next => ?_⟩
      cases next
      exact gone

theorem Rewritten.path (rewritten : Rewritten F checks erased values G) {shadow : Llvm.Point}
    (reached : (paths G).Reachable shadow) : ∃ point, (paths F).Reachable point ∧
      Shadows G erased values point shadow ∧ ∀ inst rest, point.rest = inst :: rest → inst.id ∉ erased := by
  suffices invariant : (paths G).Invariant fun shadow => ∃ point, (paths F).Reachable point ∧
      Shadows G erased values point shadow ∧ ∀ inst rest, point.rest = inst :: rest → inst.id ∉ erased from
    invariant.reachable reached
  constructor
  · rintro shadow ⟨after, found, rfl⟩
    obtain ⟨before, here, rewrites⟩ := rewritten.block _ after found
    have start : (paths F).Reachable ⟨F.entry, before.insts, []⟩ := .initial ⟨before, rewritten.entry ▸ here, rfl⟩
    have shadows : Shadows G erased values ⟨F.entry, before.insts, []⟩ ⟨G.entry, after.insts, []⟩ :=
      ⟨rewritten.entry, rewrites.insts, by simp, rewritten.entry ▸ rewritten.rooted⟩
    exact shadows.skip start
  · intro shadow ⟨⟩ later ⟨point, reached, shadows, ahead⟩ taken
    cases taken with
    | @inst label inst' rest' defined' =>
      obtain ⟨label, rest, defined⟩ := point
      cases rest with
      | nil =>
        have none := shadows.rest
        cases none
      | cons inst rest =>
        have kept := ahead inst rest rfl
        have same := shadows.rest
        dsimp only at same
        rw [List.filter_cons_of_pos (by simpa using kept), List.map_cons, List.cons.injEq] at same
        obtain ⟨rfl, rfl⟩ := same
        refine Shadows.skip (reached.step .inst) ⟨shadows.label, rfl, fun id member away => ?_, shadows.left⟩
        rcases List.mem_cons.mp member with rfl | earlier
        · exact .head _
        · exact .tail _ (shadows.defined id earlier away)
    | @edge label after target next' defined' here' edge there' =>
      have ended : point.rest = [] := by
        cases next : point.rest with
        | nil => rfl
        | cons inst rest =>
          have same := shadows.rest
          rw [next, List.filter_cons_of_pos (by simpa using ahead inst rest next)] at same
          cases same
      obtain ⟨label, rest, defined⟩ := point
      cases ended
      cases shadows.label
      obtain ⟨before, here, rewrites⟩ := rewritten.block _ after here'
      obtain ⟨next, there, rewrites'⟩ := rewritten.block target next' there'
      have step := reached.step (.edge here (rewrites.successors here edge) there)
      refine Shadows.skip step ⟨rfl, rewrites'.insts, fun id member away => ?_, by simp [there']⟩
      rw [rewrites'.phi_ids]
      rcases List.mem_append.mp member with new | earlier
      · exact List.mem_append_left _ new
      · exact List.mem_append_right _ (shadows.defined id earlier away)

theorem Rewritten.reads (rewritten : Rewritten F checks erased values G) {point shadow : Llvm.Point}
    (shadows : Shadows G erased values point shadow) (ahead : ∀ inst rest, point.rest = inst :: rest → inst.id ∉ erased)
    {id : Id} (read : Reads G shadow.label shadow.rest (.inst id)) :
    Reads F point.label point.rest (.inst id) ∧ values id = none := by
  have back {operand : Llvm.Operand} (same : operand.subst values = .inst id) : operand = .inst id ∧ values id = none :=
    Operand.subst_eq_inst.mp same
  obtain ⟨label, rest, defined⟩ := point
  obtain ⟨label', rest', defined'⟩ := shadow
  cases shadows.label
  have same := shadows.rest
  dsimp only at same
  cases rest with
  | cons inst rest =>
    rw [List.filter_cons_of_pos (by simpa using ahead inst rest rfl), List.map_cons] at same
    cases same
    cases read with
    | inst operand =>
      obtain ⟨original, listed, same⟩ := List.mem_map.mp operand
      obtain ⟨rfl, fresh⟩ := back same
      exact ⟨.inst listed, fresh⟩
  | nil =>
    cases same
    cases read with
    | @term after _ found operand =>
      obtain ⟨before, here, rewrites⟩ := rewritten.block _ after found
      rw [rewrites.term] at operand
      cases straight : straightened F checks label with
      | some cont =>
        rw [straight] at operand
        cases operand
      | none =>
        rw [straight, Terminator.operands_subst] at operand
        obtain ⟨original, listed, same⟩ := List.mem_map.mp operand
        obtain ⟨rfl, fresh⟩ := back same
        exact ⟨.term here listed, fresh⟩
    | @phi after target next' phi' _ found edge there' member incoming =>
      obtain ⟨before, here, rewrites⟩ := rewritten.block _ after found
      obtain ⟨next, there, rewrites'⟩ := rewritten.block target next' there'
      obtain ⟨phi, listed, same⟩ : ∃ phi ∈ next.phis, PhiRewritten G values phi phi' := by
        obtain ⟨index, inside, rfl⟩ := List.getElem_of_mem member
        have sizes := rewrites'.phis.length_eq
        exact ⟨_, List.getElem_mem (sizes ▸ inside), rewrites'.phis.get (sizes ▸ inside) inside⟩
      rw [same.incoming label (by rw [found]; rfl)] at incoming
      obtain ⟨original, known, same⟩ := Option.map_eq_some_iff.mp incoming
      obtain ⟨rfl, fresh⟩ := back same
      exact ⟨.phi here (rewrites.successors here edge) there listed known, fresh⟩

/-- Definitions still come before their uses: a path through what is left follows one of the
original, and what is read on it was read there or has a value put in its place. -/
theorem Rewritten.wellFormed (rewritten : Rewritten F checks erased values G) (wellFormed : WellFormed F)
    (labels : G.labels.Nodup) : WellFormed G where
  labels := labels
  names := by
    have found {block : Label × BasicBlock} (listed : block ∈ G.blocks) : G.block? block.1 = some block.2 :=
      Assoc.lookup_of_mem labels listed
    rw [List.nodup_flatMap]
    constructor
    · intro block listed
      obtain ⟨before, here, rewrites⟩ := rewritten.block _ _ (found listed)
      have insts : (block.2.insts.map Inst.id).Sublist (before.insts.map Inst.id) := by
        rw [rewrites.insts, List.map_map]
        exact List.filter_sublist.map Inst.id
      have defs := wellFormed.defs_nodup here
      rw [BasicBlock.defs] at defs ⊢
      rw [rewrites.phi_ids]
      exact defs.sublist ((List.Sublist.refl _).append insts)
    · refine (List.Nodup.of_map _ labels).pairwise_of_forall_ne fun one first two second apart id defined defined' => ?_
      obtain ⟨before, here, rewrites⟩ := rewritten.block _ _ (found first)
      obtain ⟨before', here', rewrites'⟩ := rewritten.block _ _ (found second)
      have same := wellFormed.same_label here here' (rewrites.defs defined) (rewrites'.defs defined')
      exact apart (List.inj_on_of_nodup_map labels first second same)
  rooted := rewritten.rooted
  entry := by
    rw [Function.predEmpty_iff]
    intro pred after found edge
    obtain ⟨before, here, rewrites⟩ := rewritten.block pred after found
    rw [rewritten.entry] at edge
    exact Function.predEmpty_iff.mp wellFormed.entry pred before here (rewrites.successors here edge)
  closed block listed target edge := rewritten.closed _ _ (Assoc.lookup_of_mem labels listed) target edge
  arity block listed inst member comparison := by
    obtain ⟨before, here, rewrites⟩ := rewritten.block _ _ (Assoc.lookup_of_mem labels listed)
    rw [rewrites.insts] at member
    obtain ⟨original, kept, rfl⟩ := List.mem_map.mp member
    rw [Inst.subst, List.length_map]
    exact wellFormed.arity _ (Assoc.mem_of_lookup here) original (List.mem_of_mem_filter kept) comparison
  dominated shadow id reached read := by
    obtain ⟨point, reached, shadows, ahead⟩ := rewritten.path reached
    obtain ⟨read, fresh⟩ := rewritten.reads shadows ahead read
    refine shadows.defined id (wellFormed.dominated point id reached read) fun gone => ?_
    rw [rewritten.folded id gone] at fresh
    cases fresh

/-! The passes. -/

theorem straightenOverflowBranches_wellFormed (wellFormed : WellFormed F)
    (ran : straightenOverflowBranches F = some G) : WellFormed G := by
  obtain ⟨values, rewritten⟩ := straightenOverflowBranches_rewritten wellFormed ran
  exact rewritten.wellFormed wellFormed (wellFormed.labels.sublist (shrinks_straightenOverflowBranches ran).labels)

theorem optimizeSretNullChecks_wellFormed (wellFormed : WellFormed F)
    (ran : optimizeSretNullChecks F = some G) : WellFormed G := by
  obtain ⟨values, rewritten⟩ := optimizeSretNullChecks_rewritten wellFormed ran
  exact rewritten.wellFormed wellFormed (wellFormed.labels.sublist (shrinks_optimizeSretNullChecks ran).labels)

theorem withoutBits_wellFormed (wellFormed : WellFormed F) (removable : List Id) :
    WellFormed (withoutBits F (removedBits F removable)) := by
  refine (withoutBits_rewritten wellFormed removable).wellFormed wellFormed ?_
  rw [withoutBits, Function.labels_mapBlocks]
  exact wellFormed.labels

end
end RoboticsRt.Ubsan

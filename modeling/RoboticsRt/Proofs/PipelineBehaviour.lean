import RoboticsRt.Proofs.PassPipeline

/-! Pipelines of the plugin's function passes and what an observer sees, under handlers that
end the program. What the passes rely on, a pass that ran before them has kept. -/

namespace RoboticsRt.Ubsan
open Llvm

variable {M : Type}

/-- Functions as the front end writes them: no check in a handler, and guarded null checks are
what their branch is on. -/
structure Plain (F : Function) : Prop where
  handlers : ∀ label, isHandler F label = true → checked F (collectOverflowInstructions F) label = false
  direct : ∀ label block cont, F.block? label = some block → straightened F (nullChecks F) label = some cont →
    ∃ check ∈ nullChecks F, ∃ handler, block.term = .condBr (.inst check) handler cont

/-- `asked` holds of each function that reaches the overflow pass, and of its clone. -/
def AtOverflowPass (analyses : Analyses) (asked : Function → Function → Prop) : List FunctionPass → Function → Prop
  | [], _ => True
  | pass :: rest, F =>
    (pass = .signedOverflowOptimize → ∀ clone, straightenOverflowBranches F = some clone → asked F clone) ∧
    ∀ G kept, pass.run analyses F = some (G, kept) → AtOverflowPass analyses asked rest G

section
variable {F G : Function} {analyses : Analyses} {pass : FunctionPass} {passes : List FunctionPass}
  {kept : PreservedAnalyses} {world : World M} {input : List Val} {mem : M} {checks erased removable : List Id}
  {values : Subst}

theorem Rewritten.plain_handlers (rewritten : Rewritten F checks erased values G) (shrinks : Shrinks F G)
    (plain : ∀ label, isHandler F label = true → checked F (collectOverflowInstructions F) label = false) :
    ∀ label, isHandler G label = true → checked G (collectOverflowInstructions G) label = false := by
  intro label handler
  by_contra inside
  obtain ⟨after, there, inst, member, listed⟩ := checked_iff.mp (by simpa using inside)
  obtain ⟨before, here, rewrites⟩ := rewritten.block label after there
  rw [rewrites.insts] at member
  obtain ⟨original, left, rfl⟩ := List.mem_map.mp member
  have fewer : (collectOverflowInstructions G).Sublist (collectOverflowInstructions F) :=
    shrinks.collect fun after before left holds => left.op ▸ holds
  have earlier : checked F (collectOverflowInstructions F) label = true :=
    checked_iff.mpr ⟨before, here, original, List.mem_of_mem_filter left, fewer.subset listed⟩
  rw [plain label (rewritten.same_handlers (by rw [there]; rfl) ▸ handler)] at earlier
  cases earlier

theorem comparesSretToNull_subst (harmless : ∀ id, values id ≠ some .null) (inst : Inst) :
    comparesSretToNull F (inst.subst values) = comparesSretToNull F inst := by
  simp only [comparesSretToNull, Inst.subst, List.any_map]
  congr 1
  · refine List.any_congr rfl fun operand => ?_
    cases operand with
    | const _ => rfl
    | arg _ => rfl
    | inst id =>
      cases known : values id with
      | none => simp [Llvm.Operand.subst, known]
      | some value =>
        have other : value ≠ .null := fun null => harmless id (null ▸ known)
        simp [Llvm.Operand.subst, known, other]
  · refine List.any_congr rfl fun operand => ?_
    cases operand with
    | const _ => rfl
    | arg _ => rfl
    | inst id => cases known : values id <;> simp [Llvm.Operand.subst, known]

theorem null_check_not_bit (wellFormed : WellFormed F) (removable : List Id) {label : Label} {block : BasicBlock} {inst : Inst}
    (here : F.block? label = some block) (member : inst ∈ block.insts) (op : inst.op = .icmp .eq) :
    inst.id ∉ removedBits F removable := by
  intro gone
  obtain ⟨wo, _, listed⟩ := mem_removedBits.mp gone
  obtain ⟨label', block', here', bit, member', named, extracts, _⟩ := mem_overflowBits wellFormed listed
  obtain rfl := wellFormed.same_inst here here' member member' named
  rw [op] at extracts
  cases extracts

theorem nullChecks_withoutBits (wellFormed : WellFormed F) (removable : List Id) :
    nullChecks (withoutBits F (removedBits F removable)) = nullChecks F := by
  have compares (inst : Inst) : comparesSretToNull (withoutBits F (removedBits F removable))
      (inst.subst (folded (removedBits F removable))) = comparesSretToNull F inst :=
    comparesSretToNull_subst (fun id null => by
      obtain ⟨_, same⟩ := Option.ite_none_right_eq_some.mp null
      cases same) inst
  rw [nullChecks, collect_withoutBits]
  refine List.flatMap_congr fun entry there => congrArg (List.map _) (List.filter_congr fun inst member => ?_)
  have here := Assoc.lookup_of_mem wellFormed.labels there
  by_cases op : inst.op = .icmp .eq
  · have kept := null_check_not_bit wellFormed removable here member op
    rw [decide_eq_true kept, Bool.true_and, compares]
    rfl
  · have other : (inst.op == .icmp .eq) = false := beq_eq_false_iff_ne.mpr op
    have other' : ((inst.subst (folded (removedBits F removable))).op == .icmp .eq) = false := other
    rw [other', other, Bool.false_and, Bool.and_false, Bool.false_and]

theorem withoutBits_plain (wellFormed : WellFormed F) (removable : List Id) (plain : Plain F) :
    Plain (withoutBits F (removedBits F removable)) := by
  have rewritten := withoutBits_rewritten wellFormed removable
  refine ⟨rewritten.plain_handlers (shrinks_withoutBits _) plain.handlers, ?_⟩
  rw [nullChecks_withoutBits wellFormed]
  intro label after cont there straight
  obtain ⟨before, here, rewrites⟩ := rewritten.block label after there
  have earlier : straightened F (nullChecks F) label = some cont := by
    simp only [straightened, Option.ite_none_right_eq_some, Option.map_eq_some_iff] at straight ⊢
    obtain ⟨inside, edges, guarded, rfl⟩ := straight
    refine ⟨?_, edges, ?_, rfl⟩
    · obtain ⟨after', there', inst, member, listed⟩ := checked_iff.mp inside
      rw [there] at there'
      cases there'
      rw [rewrites.insts] at member
      obtain ⟨original, left, rfl⟩ := List.mem_map.mp member
      exact checked_iff.mpr ⟨before, here, original, List.mem_of_mem_filter left, listed⟩
    · rw [rewritten.guard_eq there] at guarded
      exact (Option.ite_none_left_eq_some.mp guarded).2
  obtain ⟨check, listed, handler, term⟩ := plain.direct label before cont here earlier
  obtain ⟨home, block, found, inst, member, named, test⟩ := mem_collect listed wellFormed
  simp only [Bool.and_eq_true, beq_iff_eq] at test
  have kept := null_check_not_bit wellFormed removable found member test.1
  refine ⟨check, listed, handler, ?_⟩
  rw [rewrites.term, straightened_nil, term]
  simp [Terminator.subst, Llvm.Operand.subst, folded_eq_none.mpr (named ▸ kept)]

theorem optimizeSretNullChecks_plain (wellFormed : WellFormed F) (ran : optimizeSretNullChecks F = some G)
    (plain : Plain F) : Plain G := by
  obtain ⟨values, rewritten⟩ := optimizeSretNullChecks_rewritten wellFormed ran
  refine ⟨rewritten.plain_handlers (shrinks_optimizeSretNullChecks ran) plain.handlers, ?_⟩
  intro label after cont there straight
  rw [nullChecks_optimized wellFormed ran, straightened_nil] at straight
  cases straight

theorem optimizeSretNullChecks_behaves (wellFormed : WellFormed F) (ran : optimizeSretNullChecks F = some G)
    (plain : Plain F) (nonNull : SretNonNull F input) (trace : List Action) :
    Behaves F world input mem trace ↔ Behaves G world input mem trace := by
  obtain ⟨values, rewritten⟩ := optimizeSretNullChecks_rewritten wellFormed ran
  refine rewritten.same_behaviours wellFormed (null_checks_silent wellFormed nonNull rewritten) ?_ trace
  exact fun state block cont reached ended here straight _ =>
    direct_checks_continue wellFormed nonNull plain.direct state block cont reached ended here straight

/-- One pass keeps what is seen and what the next one relies on. -/
theorem FunctionPass.behaves (wellFormed : WellFormed F) (ran : pass.run analyses F = some (G, kept)) (plain : Plain F)
    (nonNull : SretNonNull F input) (ends : HandlersEnd world)
    (right : pass = .signedOverflowOptimize → ∀ clone, straightenOverflowBranches F = some clone →
      AnswersRight clone (analyses F) world input mem)
    (keeps : pass = .signedOverflowOptimize → ∀ clone, straightenOverflowBranches F = some clone →
      NarrowingKeeps clone (analyses F) world input mem) :
    (∀ trace, Behaves F world input mem trace ↔ Behaves G world input mem trace) ∧ Plain G := by
  cases pass with
  | signedOverflowOptimize =>
    have never := proven_never_overflows wellFormed (right rfl) (keeps rfl) (followed_aborting ends plain.handlers)
    refine ⟨optimized_behaves wellFormed ran never, ?_⟩
    obtain ⟨removable, _, rfl, _⟩ := signedOverflowOptimize_result wellFormed ran
    exact withoutBits_plain wellFormed removable plain
  | optimizeSretNullChecks =>
    obtain ⟨_, optimized⟩ := sretNullChecksRun_leaves wellFormed ran
    exact ⟨optimizeSretNullChecks_behaves wellFormed optimized plain nonNull,
      optimizeSretNullChecks_plain wellFormed optimized plain⟩
  | signedOverflowAnalysis =>
    obtain rfl := signedOverflowAnalysis_same ran
    exact ⟨fun _ => .rfl, plain⟩

/-- Each pass hands on what the next one relies on: functions stay as the front end writes them,
and their clones are asked about again. An observer sees no difference after any of them, the
reports of the checks included. -/
theorem pipeline_preserves_behaviour (F G : Function) (analyses : Analyses) (passes : List FunctionPass)
    (kept : PreservedAnalyses) (world : World M) (input : List Val) (mem : M) (wellFormed : WellFormed F)
    (ran : runPasses analyses passes F = some (G, kept)) (plain : Plain F) (nonNull : SretNonNull F input)
    (ends : HandlersEnd world)
    (right : AtOverflowPass analyses (fun F clone => AnswersRight clone (analyses F) world input mem) passes F)
    (keeps : AtOverflowPass analyses (fun F clone => NarrowingKeeps clone (analyses F) world input mem) passes F)
    (trace : List Action) :
    Behaves F world input mem trace ↔ Behaves G world input mem trace := by
  induction passes generalizing F kept with
  | nil =>
    cases ran
    exact .rfl
  | cons pass rest ih =>
    obtain ⟨H, first, more, one, remaining, _⟩ := runPasses_cons.mp ran
    obtain ⟨same, plain'⟩ := FunctionPass.behaves wellFormed one plain nonNull ends right.1 keeps.1
    have leaves := FunctionPass.leaves wellFormed one
    have nonNull' : SretNonNull H input := by
      intro index sret
      rw [leaves.shrinks.sret] at sret
      exact nonNull index sret
    exact (same trace).trans (ih H more leaves.wellFormed remaining plain' nonNull' (right.2 H first one)
      (keeps.2 H first one))

theorem counting_simplified : Behaves (counting 0 4 .unreachable) reporting [] () [.ret none] ↔
    Behaves (fewCountsOptimized .unreachable) reporting [] () [.ret none] := by
  refine pipeline_preserves_behaviour _ _ (fun _ _ => fewCounts) earlySimplification ⟨false⟩ _ _ _
    counting_wellFormed.1 (by decide +kernel) ⟨counting_handlers, ?_⟩ nofun reporting_ends ?_ ?_ _
  · intro label block cont _ straight
    have none : nullChecks (counting 0 4 .unreachable) = [] := rfl
    rw [none, straightened_nil] at straight
    cases straight
  all_goals
    refine ⟨fun _ clone straight => ?_, fun _ _ _ => ⟨nofun, fun _ _ _ => trivial⟩⟩
    rw [counting_clone.1] at straight
    cases straight
  · exact (fewCounts_right _).1
  · exact (fewCounts_right _).2

end
end RoboticsRt.Ubsan

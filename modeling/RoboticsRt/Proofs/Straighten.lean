import RoboticsRt.Ubsan.Passes

/-! What straightening one branch does to the graph of any function: a handler block loses
a predecessor, and goes with its last one. -/

namespace RoboticsRt.Ubsan
open Llvm

/-- Nothing but `label` jumps to the handler. -/
def OnlyPredecessor (F : Function) (label handler : Label) : Prop :=
  ∀ pred block, F.block? pred = some block → handler ∈ block.term.successors → pred = label

def Leaves (F : Function) (check : Id) (handler : Label) : Prop :=
  ∃ label cont, F.parent check = some label ∧ guard F label = some (handler, cont)

def Removes (F : Function) (check : Id) (handler : Label) : Prop :=
  ∃ label cont, F.parent check = some label ∧ guard F label = some (handler, cont) ∧ OnlyPredecessor F label handler

/-- The three things that may come of a branch. -/
inductive Straightens (F : Function) (label : Label) : Function → Prop where
  | unguarded (none : guard F label = none) : Straightens F label F
  | rewired {handler cont} (guarded : guard F label = some (handler, cont))
      (reached : ¬ OnlyPredecessor F label handler) : Straightens F label (F.replaceBranch label cont)
  | removed {handler cont} (guarded : guard F label = some (handler, cont))
      (last : OnlyPredecessor F label handler) :
      Straightens F label ((F.replaceBranch label cont).deleteDeadBlock handler)

section
variable {F : Function} {check : Id} {label handler cont : Label}

theorem leaves_iff (sits : F.parent check = some label) :
    Leaves F check handler ↔ ∃ cont, guard F label = some (handler, cont) := by
  simp [Leaves, sits]

theorem removes_iff (sits : F.parent check = some label) :
    Removes F check handler ↔ (∃ cont, guard F label = some (handler, cont)) ∧ OnlyPredecessor F label handler := by
  simp [Removes, sits]

theorem leaves_only (sits : F.parent check = some label) (guarded : guard F label = some (handler, cont)) {other : Label} :
    Leaves F check other ↔ other = handler := by
  simp [leaves_iff sits, guarded, eq_comm]

theorem removes_only (sits : F.parent check = some label) (guarded : guard F label = some (handler, cont)) {other : Label} :
    Removes F check other ↔ other = handler ∧ OnlyPredecessor F label handler := by
  rw [removes_iff sits, ← leaves_iff sits, leaves_only sits guarded]
  exact and_congr_right fun same => same ▸ Iff.rfl

theorem guard_handlers (guarded : guard F label = some (handler, cont)) :
    isHandler F handler = true ∧ isHandler F cont = false := by
  unfold guard at guarded
  split at guarded
  · split at guarded
    next yes no =>
      cases guarded
      exact ⟨yes, no⟩
    next no yes =>
      cases guarded
      exact ⟨yes, no⟩
    · cases guarded
  · cases guarded

theorem guard_apart (guarded : guard F label = some (handler, cont)) : handler ≠ cont := by
  rintro rfl
  obtain ⟨yes, no⟩ := guard_handlers guarded
  rw [yes] at no
  cases no

theorem guard_handler (guarded : guard F label = some (handler, cont)) : ∃ block, F.block? handler = some block := by
  obtain ⟨yes, _⟩ := guard_handlers guarded
  obtain ⟨block, found, _⟩ := (Option.any_eq_true _ _).mp yes
  exact ⟨block, found⟩

theorem guard_branch (guarded : guard F label = some (handler, cont)) :
    ∃ block cond ifTrue ifFalse, F.block? label = some block ∧ block.term = .condBr cond ifTrue ifFalse ∧
      (handler = ifTrue ∧ cont = ifFalse ∨ handler = ifFalse ∧ cont = ifTrue) := by
  unfold guard at guarded
  cases found : F.block? label with
  | none => simp [found] at guarded
  | some block =>
    rw [found, Option.map_some] at guarded
    split at guarded
    · next cond ifTrue ifFalse term =>
      refine ⟨block, cond, ifTrue, ifFalse, rfl, Option.some.inj term, ?_⟩
      split at guarded <;> cases guarded
      · exact .inl ⟨rfl, rfl⟩
      · exact .inr ⟨rfl, rfl⟩
    · cases guarded

theorem guard_edges (guarded : guard F label = some (handler, cont)) :
    ∃ block, F.block? label = some block ∧ block.term.successors.Perm [handler, cont] := by
  obtain ⟨block, cond, ifTrue, ifFalse, found, term, ⟨rfl, rfl⟩ | ⟨rfl, rfl⟩⟩ := guard_branch guarded
  · exact ⟨block, found, by simp [term, Terminator.successors]⟩
  · refine ⟨block, found, ?_⟩
    rw [term]
    exact .swap _ _ _

theorem guard_successors (guarded : guard F label = some (handler, cont)) :
    ∃ block, F.block? label = some block ∧ handler ∈ block.term.successors ∧ cont ∈ block.term.successors := by
  obtain ⟨block, found, branch⟩ := guard_edges guarded
  exact ⟨block, found, branch.mem_iff.mpr (by simp), branch.mem_iff.mpr (by simp)⟩

theorem rewired_handler (guarded : guard F label = some (handler, cont)) :
    ∃ block, (F.replaceBranch label cont).block? handler = some block := by
  obtain ⟨block, found⟩ := guard_handler guarded
  rw [Function.replaceBranch, Function.block?_mapBlocks, found]
  exact ⟨_, rfl⟩

theorem predEmpty_rewired (guarded : guard F label = some (handler, cont)) :
    (F.replaceBranch label cont).predEmpty handler = true ↔ OnlyPredecessor F label handler := by
  rw [Function.predEmpty_iff]
  constructor
  · intro unreached pred block found edge
    by_contra other
    apply unreached pred block _ edge
    rw [Function.replaceBranch, Function.block?_mapBlocks, found, Option.map_some, if_neg other]
  · intro only pred after there edge
    rw [Function.replaceBranch, Function.block?_mapBlocks, Option.map_eq_some_iff] at there
    obtain ⟨block, found, rfl⟩ := there
    split at edge
    · exact guard_apart guarded (List.mem_singleton.mp edge)
    next other => exact other (only pred block found edge)

theorem straightenBranch_cases (F : Function) (label : Label) : Straightens F label (straightenBranch F label) := by
  unfold straightenBranch
  split
  · next none => exact .unguarded none
  · next handler cont guarded =>
    dsimp only
    split
    · next unreached => exact .removed guarded ((predEmpty_rewired guarded).mp unreached)
    · next reached => exact .rewired guarded fun last => reached ((predEmpty_rewired guarded).mpr last)

end
end RoboticsRt.Ubsan

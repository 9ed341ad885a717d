import RoboticsRt.Library.Llvm.Edit

/-! PHI nodes against the control-flow graph: a PHI node has one incoming entry for every
edge into its block. What edits of the graph do to that. -/

namespace Llvm

/-- The blocks a PHI node has entries for. -/
def Phi.preds (phi : Phi) : List Label := phi.incoming.map Prod.fst

namespace Function

/-- The number of edges between two blocks. -/
def edges (F : Function) (pred label : Label) : Nat :=
  ((F.block? pred).map fun block => block.term.successors.count label).getD 0

/-- The entries of a block's PHI nodes. -/
def entries (F : Function) (label : Label) : List (List Label) :=
  ((F.block? label).map fun block => block.phis.map Phi.preds).getD []

/-- One entry for every edge. -/
def MatchesAt (F : Function) (label : Label) : Prop :=
  ∀ preds ∈ F.entries label, ∀ pred, preds.count pred = F.edges pred label

def PhisMatch (F : Function) : Prop := ∀ label, F.MatchesAt label

/-- A PHI node has an entry for a block that does not jump here. -/
def StaleAt (F : Function) (label : Label) : Prop :=
  ∃ preds ∈ F.entries label, ∃ pred ∈ preds, F.edges pred label = 0

theorem StaleAt.not_matchesAt {F : Function} {label : Label} (stale : F.StaleAt label) : ¬ F.MatchesAt label := by
  intro matched
  obtain ⟨preds, node, pred, entry, none⟩ := stale
  rw [← matched preds node pred, List.count_eq_zero] at none
  exact none entry

/-! Checking a given function. -/

theorem edges_outside {F : Function} {pred label : Label} (outside : pred ∉ F.labels) : F.edges pred label = 0 := by
  have none : F.block? pred = none := Option.eq_none_iff_forall_ne_some.mpr fun _ found => outside (mem_labels found)
  rw [edges, none]
  rfl

theorem entries_outside {F : Function} {label : Label} (gone : F.block? label = none) : F.entries label = [] := by
  rw [entries, gone]
  rfl

theorem phisMatch_iff {F : Function} : F.PhisMatch ↔
    ∀ label ∈ F.labels, ∀ preds ∈ F.entries label, ∀ pred ∈ F.labels ++ preds, preds.count pred = F.edges pred label := by
  constructor
  · exact fun all label _ preds node pred _ => all label preds node pred
  · intro listed label preds node pred
    have inside : label ∈ F.labels := by
      cases found : F.block? label with
      | none => simp [entries_outside found] at node
      | some block => exact mem_labels found
    by_cases known : pred ∈ F.labels ++ preds
    · exact listed label inside preds node pred known
    · rw [List.mem_append, not_or] at known
      rw [List.count_eq_zero_of_not_mem known.2, edges_outside known.1]

instance (F : Function) : Decidable F.PhisMatch := decidable_of_iff _ phisMatch_iff.symm

/-! Edits of blocks that keep entries and edges. -/

section
variable {F G : Function} {label : Label}

theorem MatchesAt.of_same (entries : G.entries label = F.entries label)
    (edges : ∀ pred, G.edges pred label = F.edges pred label) (matched : F.MatchesAt label) : G.MatchesAt label := by
  intro preds node pred
  rw [entries] at node
  rw [matched preds node, edges]

theorem StaleAt.of_same (entries : G.entries label = F.entries label)
    (edges : ∀ pred, G.edges pred label = F.edges pred label) (stale : F.StaleAt label) : G.StaleAt label := by
  obtain ⟨preds, node, pred, entry, none⟩ := stale
  exact ⟨preds, entries ▸ node, pred, entry, (edges pred).trans none⟩

theorem entries_mapBlocks {change : Label → BasicBlock → BasicBlock}
    (same : ∀ label block, (change label block).phis.map Phi.preds = block.phis.map Phi.preds) :
    (F.mapBlocks change).entries label = F.entries label := by
  rw [entries, block?_mapBlocks, Option.map_map, entries]
  simp only [Function.comp_def, same]

theorem edges_mapBlocks {change : Label → BasicBlock → BasicBlock}
    (same : ∀ label block, (change label block).term.successors = block.term.successors) (pred : Label) :
    (F.mapBlocks change).edges pred label = F.edges pred label := by
  rw [edges, block?_mapBlocks, Option.map_map, edges]
  simp only [Function.comp_def, same]

end

theorem preds_subst (values : Subst) (phi : Phi) : (phi.subst values).preds = phi.preds := by
  simp [Phi.preds, Phi.subst, Function.comp_def]

theorem preds_removeIncomingValue (pred : Label) (phi : Phi) :
    (phi.removeIncomingValue pred).preds = phi.preds.filter (· != pred) := by
  rw [Phi.preds, Phi.removeIncomingValue, Phi.preds, List.filter_map]
  rfl

/-! One of two edges goes. -/

section Rewire
variable {F : Function} {label gone kept : Label} {block : BasicBlock}

theorem entries_replaceBranch (target l : Label) : (F.replaceBranch label target).entries l = F.entries l := by
  apply entries_mapBlocks
  intro here block
  split <;> rfl

theorem edges_replaceBranch (found : F.block? label = some block) (target pred l : Label) :
    (F.replaceBranch label target).edges pred l = if pred = label then [target].count l else F.edges pred l := by
  rw [edges, replaceBranch, block?_mapBlocks]
  by_cases here : pred = label
  · subst here
    rw [found, if_pos rfl]
    simp [Terminator.successors]
  · simp only [if_neg here, edges, Option.map_map, Function.comp_def]

theorem edges_kept (found : F.block? label = some block) (branch : block.term.successors.Perm [gone, kept])
    {l : Label} (other : l ≠ gone) (pred : Label) : (F.replaceBranch label kept).edges pred l = F.edges pred l := by
  rw [edges_replaceBranch found]
  split
  next here => rw [here, edges, found, Option.map_some, Option.getD_some, branch.count_eq, List.count_cons_of_ne other.symm]
  · rfl

theorem edges_gone (found : F.block? label = some block) (apart : gone ≠ kept) (pred : Label) :
    (F.replaceBranch label kept).edges pred gone = if pred = label then 0 else F.edges pred gone := by
  have none : [kept].count gone = 0 := List.count_eq_zero.mpr (by simpa using apart)
  rw [edges_replaceBranch found, none]

/-- The block that lost its edge keeps an entry for it in every PHI node. -/
theorem staleAt_replaceBranch (found : F.block? label = some block) (branch : block.term.successors.Perm [gone, kept])
    (apart : gone ≠ kept) (matched : F.MatchesAt gone) (phis : F.entries gone ≠ []) :
    (F.replaceBranch label kept).StaleAt gone := by
  obtain ⟨preds, node⟩ := List.exists_mem_of_ne_nil _ phis
  refine ⟨preds, by rwa [entries_replaceBranch], label, ?_, by rw [edges_gone found apart, if_pos rfl]⟩
  rw [← List.count_pos_iff, matched preds node, edges, found, Option.map_some, Option.getD_some, branch.count_eq,
    List.count_cons_self]
  exact Nat.succ_pos _

theorem StaleAt.replaceBranch (found : F.block? label = some block) (branch : block.term.successors.Perm [gone, kept])
    (apart : gone ≠ kept) {l : Label} (stale : F.StaleAt l) : (F.replaceBranch label kept).StaleAt l := by
  by_cases lost : l = gone
  · subst lost
    obtain ⟨preds, node, pred, entry, none⟩ := stale
    refine ⟨preds, by rwa [entries_replaceBranch], pred, entry, ?_⟩
    rw [edges_gone found apart, none, ite_self]
  · exact stale.of_same (entries_replaceBranch _ _) (edges_kept found branch lost)

end Rewire

/-! A block goes: its successors forget it. -/

section Delete
variable {F : Function} {dead : Label} {gone : BasicBlock}

theorem edges_deleteDeadBlock (found : F.block? dead = some gone) (pred label : Label) :
    (F.deleteDeadBlock dead).edges pred label = if pred = dead then 0 else F.edges pred label := by
  rw [edges, block?_deleteDeadBlock found]
  by_cases same : pred = dead
  · rw [if_pos same, if_pos same]
    rfl
  · rw [if_neg same, if_neg same, Option.map_map, edges]
    refine congrArg (Option.getD · 0) (congrArg (Option.map · _) (funext fun block => ?_))
    dsimp only [Function.comp_apply, BasicBlock.subst]
    rw [Terminator.successors_subst]
    split <;> rfl

theorem entries_deleteDeadBlock (found : F.block? dead = some gone) {label : Label} (other : label ≠ dead) :
    (F.deleteDeadBlock dead).entries label =
      if label ∈ gone.term.successors then (F.entries label).map (·.filter (· != dead)) else F.entries label := by
  rw [entries, block?_deleteDeadBlock found, if_neg other, entries]
  cases F.block? label with
  | none => simp
  | some block =>
    split <;> simp [BasicBlock.subst, BasicBlock.removePredecessor, preds_subst, preds_removeIncomingValue, Function.comp_def]

theorem MatchesAt.deleteDeadBlock (found : F.block? dead = some gone) {label : Label} (other : label ≠ dead)
    (matched : F.MatchesAt label) : (F.deleteDeadBlock dead).MatchesAt label := by
  intro preds node pred
  rw [edges_deleteDeadBlock found]
  rw [entries_deleteDeadBlock found other] at node
  split at node
  · obtain ⟨before, earlier, rfl⟩ := List.mem_map.mp node
    by_cases same : pred = dead
    · rw [if_pos same, List.count_eq_zero]
      simp [same]
    · rw [if_neg same, List.count_filter (by simpa using same), matched before earlier]
  next apart =>
    rw [matched preds node]
    split
    next same => rw [same, edges, found, Option.map_some, Option.getD_some, List.count_eq_zero_of_not_mem apart]
    · rfl

theorem StaleAt.deleteDeadBlock (found : F.block? dead = some gone) {label : Label} (other : label ≠ dead)
    (stale : F.StaleAt label) : (F.deleteDeadBlock dead).StaleAt label := by
  obtain ⟨preds, node, pred, entry, none⟩ := stale
  have still : (F.deleteDeadBlock dead).edges pred label = 0 := by
    rw [edges_deleteDeadBlock found, none, ite_self]
  rw [StaleAt, entries_deleteDeadBlock found other]
  split
  next edge =>
    -- the deleted block had an edge here, so it is not the stale one
    have live : pred ≠ dead := by
      rintro rfl
      rw [edges, found, Option.map_some, Option.getD_some, List.count_eq_zero] at none
      exact none edge
    exact ⟨_, List.mem_map_of_mem node, pred, List.mem_filter.mpr ⟨entry, by simpa using live⟩, still⟩
  · exact ⟨preds, node, pred, entry, still⟩

end Delete
end Function
end Llvm

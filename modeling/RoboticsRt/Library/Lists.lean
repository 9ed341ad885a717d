import Mathlib.Data.List.Forall2
import Mathlib.Data.List.Nodup

/-! Lists used as tables, looked up by key, lists thinned out entry by entry, and worklists,
handled front to back by a step that may fail. -/

namespace Assoc

universe u v w
variable {κ : Type u} [DecidableEq κ] {α : Type v} {β : Type w}

theorem mem_of_lookup {table : List (κ × α)} {key : κ} {value : α}
    (found : table.lookup key = some value) : (key, value) ∈ table := by
  obtain ⟨before, after, same, _⟩ := List.lookup_eq_some_iff.mp found
  rw [same]
  simp

theorem lookup_of_mem {table : List (κ × α)} (keys : (table.map Prod.fst).Nodup) {key : κ} {value : α}
    (member : (key, value) ∈ table) : table.lookup key = some value := by
  obtain ⟨before, after, same⟩ := List.append_of_mem member
  refine List.lookup_eq_some_iff.mpr ⟨before, after, same, fun entry earlier => ?_⟩
  rw [same, List.map_append, List.map_cons] at keys
  have apart := List.disjoint_of_nodup_append keys (List.mem_map_of_mem earlier)
  simp only [bne_iff_ne, ne_eq]
  rintro rfl
  exact apart List.mem_cons_self

theorem lookup_map (table : List (κ × α)) (update : κ → α → β) (key : κ) :
    (table.map fun entry => (entry.1, update entry.1 entry.2)).lookup key =
      (table.lookup key).map (update key) := by
  induction table with
  | nil => rfl
  | cons entry rest ih =>
    obtain ⟨first, value⟩ := entry
    rw [List.map_cons, List.lookup_cons, List.lookup_cons, ih]
    by_cases same : key = first
    · simp [same]
    · simp [beq_eq_false_iff_ne.mpr same]

theorem lookup_remove (table : List (κ × α)) (removed key : κ) :
    (table.filter (·.1 != removed)).lookup key = if key = removed then none else table.lookup key := by
  induction table with
  | nil => simp
  | cons entry rest ih =>
    obtain ⟨first, value⟩ := entry
    by_cases drop : first = removed
    · rw [List.filter_cons_of_neg (by simp [drop]), ih, List.lookup_cons]
      by_cases same : key = removed
      · simp [same]
      · simp [beq_eq_false_iff_ne.mpr (drop ▸ same : key ≠ first), same]
    · rw [List.filter_cons_of_pos (by simp [drop]), List.lookup_cons, List.lookup_cons, ih]
      by_cases same : key = first
      · subst same
        simp [drop]
      · simp [beq_eq_false_iff_ne.mpr same]

end Assoc

namespace Thinned

universe u v w
variable {α : Type u} {β : Type v} {γ : Type w} {left : α → β → Prop}

/-- Entries that are left give no more than they did. -/
theorem flatMap_sublist {after : List α} {before : List β} (thinned : List.SublistForall₂ left after before)
    {f : α → List γ} {g : β → List γ} (each : ∀ a b, left a b → (f a).Sublist (g b)) :
    (after.flatMap f).Sublist (before.flatMap g) := by
  induction thinned with
  | nil => exact List.nil_sublist _
  | cons same _ ih =>
    rw [List.flatMap_cons, List.flatMap_cons]
    exact (each _ _ same).append ih
  | cons_right _ ih =>
    rw [List.flatMap_cons]
    exact ih.trans (List.sublist_append_right _ _)

theorem map_left {change : β → α} (each : ∀ entry, left (change entry) entry) (entries : List β) :
    List.SublistForall₂ left (entries.map change) entries := by
  rw [List.sublistForall₂_map_left_iff, List.sublistForall₂_iff]
  exact ⟨entries, List.forall₂_same.mpr fun entry _ => each entry, .refl _⟩

end Thinned

namespace Worklist

universe u v
variable {α : Type u} {σ : Type v}

/-- What holds of the entries done so far, once all are done, holds of the whole list. -/
theorem foldlM_done {step : σ → α → Option σ} {holds : List α → σ → Prop} {todo : List α}
    (each : ∀ entry ∈ todo, ∀ done before after, holds done before → step before entry = some after →
      holds (done ++ [entry]) after)
    {done : List α} {before after : σ} (start : holds done before)
    (ran : todo.foldlM step before = some after) : holds (done ++ todo) after := by
  induction todo generalizing done before with
  | nil =>
    cases ran
    rwa [List.append_nil]
  | cons entry rest ih =>
    rw [List.foldlM_cons, Option.bind_eq_bind, Option.bind_eq_some_iff] at ran
    obtain ⟨middle, one, remaining⟩ := ran
    rw [List.append_cons]
    exact ih (fun entry later => each entry (.tail _ later))
      (each entry (.head _) done before middle start one) remaining

/-- What every iteration keeps. -/
theorem foldlM_keeps {step : σ → α → Option σ} {holds : σ → Prop} {todo : List α}
    (each : ∀ entry ∈ todo, ∀ before after, holds before → step before entry = some after → holds after)
    {before after : σ} (start : holds before) (ran : todo.foldlM step before = some after) : holds after :=
  @foldlM_done _ _ step (fun _ => holds) todo (fun entry listed _ => each entry listed) [] before after start ran

/-- The same for steps that never fail. -/
theorem foldl_done {step : σ → α → σ} {holds : List α → σ → Prop} {todo : List α}
    (each : ∀ entry ∈ todo, ∀ done before, holds done before → holds (done ++ [entry]) (step before entry))
    {done : List α} {before : σ} (start : holds done before) : holds (done ++ todo) (todo.foldl step before) := by
  induction todo generalizing done before with
  | nil => rwa [List.append_nil]
  | cons entry rest ih =>
    rw [List.append_cons]
    exact ih (fun entry later => each entry (.tail _ later)) (each entry (.head _) done before start)

/-- One turn of the loop: the state it starts in, the entry it takes, the entries left after it. -/
structure Turn (α : Type u) (σ : Type v) where
  state : σ
  entry : α
  rest : List α

/-- The turns of the loop, the last one being the one that fails, if one does. -/
def iterations (step : σ → α → Option σ) : σ → List α → List (Turn α σ)
  | _, [] => []
  | state, entry :: rest =>
    ⟨state, entry, rest⟩ :: (step state entry).elim [] fun next => iterations step next rest

variable {step : σ → α → Option σ}

/-- What holds of the turns so far, once the list is done, holds of all turns. -/
theorem foldlM_iterations {holds : List (Turn α σ) → σ → Prop}
    (each : ∀ turns before entry rest after, holds turns before → step before entry = some after →
      holds (turns ++ [⟨before, entry, rest⟩]) after)
    {todo : List α} {turns : List (Turn α σ)} {before after : σ} (start : holds turns before)
    (ran : todo.foldlM step before = some after) : holds (turns ++ iterations step before todo) after := by
  induction todo generalizing turns before with
  | nil =>
    cases ran
    rwa [iterations, List.append_nil]
  | cons entry rest ih =>
    rw [List.foldlM_cons, Option.bind_eq_bind, Option.bind_eq_some_iff] at ran
    obtain ⟨middle, one, remaining⟩ := ran
    rw [iterations, one, Option.elim_some, List.append_cons]
    exact ih (each turns before entry rest middle start one) remaining

theorem foldlM_isSome_iff {todo : List α} {start : σ} :
    (todo.foldlM step start).isSome ↔ ∀ turn ∈ iterations step start todo, (step turn.state turn.entry).isSome := by
  induction todo generalizing start with
  | nil => simp [iterations]
  | cons entry rest ih =>
    rw [List.foldlM_cons, iterations, List.forall_mem_cons]
    cases one : step start entry with
    | none => simp
    | some next => simpa using ih

/-- Steps that may delete entries still in the list: a step fails at an entry that is gone,
and goes through at another if it `finishes`. What it does not spare is gone after it. -/
structure Deleting (step : σ → α → Option σ) (valid : σ → Prop) (present finishes : σ → α → Prop)
    (spares : σ → α → α → Prop) : Prop where
  absent : ∀ state entry, ¬ present state entry → step state entry = none
  taken : ∀ state entry, valid state → present state entry → ((step state entry).isSome ↔ finishes state entry)
  later : ∀ state entry after other, valid state → step state entry = some after → other ≠ entry →
    (present after other ↔ present state other ∧ spares state entry other)
  valid : ∀ state entry after, valid state → step state entry = some after → valid after

section Deleting
variable {valid : σ → Prop} {present finishes : σ → α → Prop} {spares : σ → α → α → Prop}

theorem Deleting.fails_at_absent (deleting : Deleting step valid present finishes spares) {todo : List α} {start : σ}
    (holds : valid start) {entry : α} (listed : entry ∈ todo) (absent : ¬ present start entry) :
    todo.foldlM step start = none := by
  induction todo generalizing start with
  | nil => cases listed
  | cons first rest ih =>
    rw [List.foldlM_cons]
    cases one : step start first with
    | none => rfl
    | some next =>
      have other : entry ≠ first := by
        rintro rfl
        rw [deleting.absent start entry absent] at one
        cases one
      apply ih (deleting.valid start first next holds one) ((List.mem_cons.mp listed).resolve_left other)
      exact fun there => absent ((deleting.later start first next entry holds one other).mp there).1

/-- The loop ends if and only if every turn spares the entries after it. -/
theorem Deleting.isSome_iff (deleting : Deleting step valid present finishes spares) {todo : List α} {start : σ}
    (distinct : todo.Nodup) (holds : valid start) (here : ∀ entry ∈ todo, present start entry) :
    (todo.foldlM step start).isSome ↔ ∀ turn ∈ iterations step start todo,
      finishes turn.state turn.entry ∧ ∀ later ∈ turn.rest, spares turn.state turn.entry later := by
  induction todo generalizing start with
  | nil => simp [iterations]
  | cons first rest ih =>
    obtain ⟨fresh, distinct⟩ := List.nodup_cons.mp distinct
    obtain ⟨first_here, rest_here⟩ := List.forall_mem_cons.mp here
    rw [List.foldlM_cons, iterations, List.forall_mem_cons, ← deleting.taken start first holds first_here]
    cases one : step start first with
    | none => simp
    | some next =>
      have valid_next := deleting.valid start first next holds one
      have other : ∀ later ∈ rest, later ≠ first := fun later listed same => fresh (same ▸ listed)
      simp only [Option.bind_eq_bind, Option.bind_some, Option.isSome_some, true_and, Option.elim_some]
      constructor
      · intro ends
        have spared : ∀ later ∈ rest, present next later := by
          intro later listed
          by_contra absent
          rw [deleting.fails_at_absent valid_next listed absent] at ends
          cases ends
        refine ⟨fun later listed => ?_, (ih distinct valid_next spared).mp ends⟩
        exact ((deleting.later start first next later holds one (other later listed)).mp (spared later listed)).2
      · rintro ⟨spared, turns⟩
        refine (ih distinct valid_next fun later listed => ?_).mpr turns
        exact (deleting.later start first next later holds one (other later listed)).mpr
          ⟨rest_here later listed, spared later listed⟩

end Deleting
end Worklist

import RoboticsRt.Library.EarlyExit
import Mathlib.Order.Bounds.Basic
import Mathlib.Order.MinMax

/-! Searches for a minimum that skip every candidate whose bound is no better than the best
value found so far. Visits lower that value, so later candidates are skipped the more easily. -/

namespace BranchAndBound
open EarlyExit

universe u v w
variable {ι : Type u} {α : Type v} {σ : Type w} [LinearOrder α]

/-- A visit passes over candidates whose bound is not below the best value, takes the value
of the others into account, and stops only at the bottom. -/
structure Prunes (visit : ι → α × σ → (α × σ) × Bool) (bound exact : ι → α) (bottom : α) : Prop where
  skips : ∀ i best state, best ≤ bound i → visit i (best, state) = ((best, state), false)
  lowers : ∀ i best state, bound i < best → (visit i (best, state)).1.1 = min best (exact i)
  stops : ∀ i best state, bound i < best → (visit i (best, state)).2 = true → (visit i (best, state)).1.1 = bottom

variable {visit : ι → α × σ → (α × σ) × Bool} {bound exact : ι → α} {bottom : α}

/-- Bounds below the exact values lose nothing: the search ends with the least of the value
it started from and those of all candidates. -/
theorem Prunes.search_isLeast (prunes : Prunes visit bound exact bottom) (offers : List ι) (best : α) (state : σ)
    (sound : ∀ i ∈ offers, bound i ≤ exact i) (floor : ∀ i ∈ offers, bottom ≤ exact i) :
    IsLeast {value | value = best ∨ ∃ i ∈ offers, value = exact i} (search visit offers (best, state)).1 := by
  induction offers generalizing best state with
  | nil =>
    refine ⟨Or.inl rfl, ?_⟩
    rintro value (rfl | ⟨_, none, _⟩)
    · exact le_rfl
    · cases none
  | cons i rest ih =>
    have rest_least (best : α) (state : σ) :=
      ih best state (fun j later => sound j (List.mem_cons_of_mem i later))
        fun j later => floor j (List.mem_cons_of_mem i later)
    rcases le_or_gt best (bound i) with skipped | visited
    · have worse : best ≤ exact i := skipped.trans (sound i List.mem_cons_self)
      rw [search, prunes.skips i best state skipped]
      obtain ⟨among, below⟩ := rest_least best state
      constructor
      · rcases among with value | ⟨j, later, value⟩
        · exact Or.inl value
        · exact Or.inr ⟨j, List.mem_cons_of_mem i later, value⟩
      · rintro value (rfl | ⟨j, member, rfl⟩)
        · exact below (Or.inl rfl)
        · rcases List.mem_cons.mp member with rfl | later
          · exact (below (Or.inl rfl)).trans worse
          · exact below (Or.inr ⟨j, later, rfl⟩)
    · have lowered := prunes.lowers i best state visited
      have stopped := prunes.stops i best state visited
      have chosen : min best (exact i) = best ∨ ∃ j ∈ i :: rest, min best (exact i) = exact j :=
        (min_choice best (exact i)).imp_right fun value => ⟨i, List.mem_cons_self, value⟩
      rw [search]
      generalize visit i (best, state) = called at lowered stopped
      obtain ⟨⟨closer, next⟩, stop⟩ := called
      dsimp only at lowered stopped ⊢
      cases stop with
      | true =>
        have reached := stopped rfl
        rw [if_pos rfl]
        refine ⟨lowered ▸ chosen, ?_⟩
        rintro value (rfl | ⟨j, member, rfl⟩)
        · exact lowered.trans_le (min_le_left _ _)
        · exact reached.trans_le (floor j member)
      | false =>
        rw [if_neg Bool.false_ne_true]
        obtain ⟨among, below⟩ := rest_least closer next
        constructor
        · rcases among with value | ⟨j, later, value⟩
          · rw [value, lowered]
            exact chosen
          · exact Or.inr ⟨j, List.mem_cons_of_mem i later, value⟩
        · have started := (below (Or.inl rfl)).trans_eq lowered
          rintro value (rfl | ⟨j, member, rfl⟩)
          · exact started.trans (min_le_left _ _)
          · rcases List.mem_cons.mp member with rfl | later
            · exact started.trans (min_le_right _ _)
            · exact below (Or.inr ⟨j, later, rfl⟩)

/-- Where every candidate is better than the start, the search ends with the least candidate. -/
theorem Prunes.search_least_exact (prunes : Prunes visit bound exact bottom) {offers : List ι} (best : α) (state : σ)
    (sound : ∀ i ∈ offers, bound i ≤ exact i) (floor : ∀ i ∈ offers, bottom ≤ exact i) (some : offers ≠ [])
    (better : ∀ i ∈ offers, exact i < best) :
    IsLeast {value | ∃ i ∈ offers, value = exact i} (search visit offers (best, state)).1 := by
  obtain ⟨among, below⟩ := prunes.search_isLeast offers best state sound floor
  refine ⟨?_, fun value candidate => below (Or.inr candidate)⟩
  rcases among with start | candidate
  · obtain ⟨i, member⟩ := List.exists_mem_of_ne_nil offers some
    have reached := below (Or.inr ⟨i, member, rfl⟩)
    rw [start] at reached
    exact absurd reached (better i member).not_ge
  · exact candidate

end BranchAndBound

import Mathlib.Data.List.Basic

/-! Searches that hand offers to a callback until it asks to stop. A callback that
stops at its first hit records whether any offer was one, in whatever order they come. -/

namespace EarlyExit

universe u v
variable {σ : Type u} {α : Type v}

def search (callback : α → σ → σ × Bool) : List α → σ → σ
  | [], state => state
  | offer :: rest, state =>
    let (next, stop) := callback offer state
    if stop then next else search callback rest next

/-- The callback stops at hits and remembers that it has seen one. -/
structure Detects (callback : α → σ → σ × Bool) (hit : α → Bool) (found : σ → Bool) : Prop where
  stops : ∀ offer state, (callback offer state).2 = hit offer
  records : ∀ offer state, found (callback offer state).1 = (found state || hit offer)

variable {callback : α → σ → σ × Bool} {hit : α → Bool} {found : σ → Bool}

theorem Detects.search (detects : Detects callback hit found) (offers : List α) (state : σ) :
    found (search callback offers state) = (found state || offers.any hit) := by
  induction offers generalizing state with
  | nil => simp [EarlyExit.search]
  | cons offer rest ih =>
    have stops := detects.stops offer state
    have records := detects.records offer state
    cases called : callback offer state with
    | mk next stop =>
      rw [called] at stops records
      dsimp only at stops records
      simp only [EarlyExit.search, called, List.any_cons, ← stops] at records ⊢
      cases stop with
      | true => simp [records]
      | false => simp [ih, records]

/-- The verdict depends only on whether a hit is among the offers. -/
theorem Detects.search_iff (detects : Detects callback hit found) (offers : List α) {state : σ}
    (fresh : found state = false) :
    found (EarlyExit.search callback offers state) = true ↔ ∃ offer ∈ offers, hit offer = true := by
  rw [detects.search, fresh, Bool.false_or, List.any_eq_true]

end EarlyExit

import Mathlib.Data.List.Basic

/-! Histories: lists that only grow at the end, and assertions about each entry
in terms of what was recorded before it. -/

namespace History

universe u v
variable {α : Type u}

/-- Each entry is justified by the entries that precede it. -/
def Throughout (justified : List α → α → Prop) (log : List α) : Prop :=
  ∀ before entry after, log = before ++ entry :: after → justified before entry

theorem Throughout.nil {justified : List α → α → Prop} : Throughout justified [] := by
  intro before entry after same
  simp at same

theorem Throughout.snoc {justified : List α → α → Prop} {log : List α} {last : α}
    (kept : Throughout justified log) (new : justified log last) :
    Throughout justified (log ++ [last]) := by
  intro before entry after same
  rcases List.eq_nil_or_concat after with rfl | ⟨rest, final, rfl⟩
  · obtain ⟨rfl, equal⟩ := List.append_inj' same rfl
    cases equal
    exact new
  · rw [List.concat_eq_append, ← List.cons_append, ← List.append_assoc] at same
    exact kept before entry rest (List.append_inj' same rfl).1

theorem Throughout.initial {justified : List α → α → Prop} {first last : List α}
    (kept : Throughout justified (first ++ last)) : Throughout justified first := by
  intro before entry after same
  exact kept before entry (after ++ last) (by rw [same]; simp)

/-- An entry of the log sits after the entries that justify it. -/
theorem Throughout.split {justified : List α → α → Prop} {log : List α} (kept : Throughout justified log)
    {entry : α} (member : entry ∈ log) :
    ∃ before after, log = before ++ entry :: after ∧ justified before entry := by
  obtain ⟨before, after, same⟩ := List.append_of_mem member
  exact ⟨before, after, same, kept before entry after same⟩

end History

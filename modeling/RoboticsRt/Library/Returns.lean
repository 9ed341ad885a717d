import Mathlib.Data.List.Forall2
import Mathlib.Data.List.Range

/-! Computations that stop at the first fault. A run returns when each of its parts does. -/

namespace Except

universe u v w
variable {ε : Type u} {α β : Type v} {ι : Type w}

def Returns (x : Except ε α) : Prop := ∃ a, x = .ok a

theorem bind_eq_ok {x : Except ε α} {f : α → Except ε β} {b : β} : x >>= f = .ok b ↔ ∃ a, x = .ok a ∧ f a = .ok b := by
  cases x with
  | error fault =>
    constructor
    · intro impossible
      cases impossible
    · rintro ⟨a, impossible, _⟩
      cases impossible
  | ok a =>
    constructor
    · exact fun run => ⟨a, rfl, run⟩
    · rintro ⟨_, same, run⟩
      cases same
      exact run

theorem returns_bind {x : Except ε α} {f : α → Except ε β} : (x >>= f).Returns ↔ ∃ a, x = .ok a ∧ (f a).Returns := by
  constructor
  · rintro ⟨b, run⟩
    obtain ⟨a, first, last⟩ := bind_eq_ok.mp run
    exact ⟨a, first, b, last⟩
  · rintro ⟨a, first, b, last⟩
    exact ⟨b, bind_eq_ok.mpr ⟨a, first, last⟩⟩

/-- What comes next returns whatever the first part has returned, or not at all. -/
theorem returns_bind_of {x : Except ε α} {f : α → Except ε β} {p : Prop} (next : ∀ a, x = .ok a → ((f a).Returns ↔ p)) :
    (x >>= f).Returns ↔ x.Returns ∧ p := by
  rw [returns_bind]
  constructor
  · rintro ⟨a, first, last⟩
    exact ⟨⟨a, first⟩, (next a first).mp last⟩
  · rintro ⟨⟨a, first⟩, last⟩
    exact ⟨a, first, (next a first).mpr last⟩

theorem returns_pure (a : α) : (pure a : Except ε α).Returns := ⟨a, rfl⟩

theorem mapM_eq_ok {f : ι → Except ε β} {items : List ι} {results : List β} :
    items.mapM f = .ok results ↔ List.Forall₂ (fun item result => f item = .ok result) items results := by
  induction items generalizing results with
  | nil =>
    rw [List.mapM_nil, List.forall₂_nil_left_iff]
    constructor
    · rintro ⟨⟩
      rfl
    · rintro rfl
      rfl
  | cons item rest ih =>
    rw [List.mapM_cons, bind_eq_ok, List.forall₂_cons_left_iff]
    constructor
    · rintro ⟨result, first, run⟩
      obtain ⟨others, later, same⟩ := bind_eq_ok.mp run
      cases same
      exact ⟨result, others, first, ih.mp later, rfl⟩
    · rintro ⟨result, others, first, later, rfl⟩
      exact ⟨result, first, bind_eq_ok.mpr ⟨others, ih.mpr later, rfl⟩⟩

theorem mapM_returns {f : ι → Except ε β} {items : List ι} :
    (items.mapM f).Returns ↔ ∀ item ∈ items, (f item).Returns := by
  induction items with
  | nil => exact iff_of_true ⟨[], rfl⟩ nofun
  | cons item rest ih =>
    rw [List.mapM_cons, List.forall_mem_cons, ← ih]
    have after (first : β) : (rest.mapM f >>= fun others => pure (first :: others)).Returns ↔ (rest.mapM f).Returns := by
      rw [returns_bind_of (p := True) fun others _ => iff_of_true (returns_pure _) trivial, and_true]
    exact returns_bind_of fun first _ => after first

theorem mapM_range_eq_ok {f : Nat → Except ε β} {n : Nat} {results : List β} (run : (List.range n).mapM f = .ok results) :
    results.length = n ∧ ∀ i < n, ∃ result, results[i]? = some result ∧ f i = .ok result := by
  have pairs := mapM_eq_ok.mp run
  have size := pairs.length_eq
  rw [List.length_range] at size
  refine ⟨size.symm, fun i inside => ?_⟩
  have here : i < results.length := size ▸ inside
  have fits : i < (List.range n).length := by rwa [List.length_range]
  have pair := pairs.get fits here
  rw [List.get_eq_getElem, List.getElem_range] at pair
  exact ⟨results[i], List.getElem?_eq_getElem here, pair⟩

/-- A loop over indices, known by what each of them gives. -/
theorem mapM_range_eq_map {f : Nat → Except ε β} {n : Nat} {results : List β} (run : (List.range n).mapM f = .ok results)
    {g : Nat → β} (known : ∀ i < n, ∀ result, f i = .ok result → result = g i) : results = (List.range n).map g := by
  obtain ⟨size, each⟩ := mapM_range_eq_ok run
  refine List.ext_getElem? fun i => ?_
  by_cases inside : i < n
  · obtain ⟨result, here, made⟩ := each i inside
    rw [here, known i inside result made, List.getElem?_map, List.getElem?_range inside]
    rfl
  · rw [List.getElem?_eq_none (by omega), List.getElem?_eq_none (by simpa using inside)]

end Except

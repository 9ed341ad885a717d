import Mathlib.Data.List.Basic

/-! Labelled transition systems: runs, what a step preserves along them, and
simulations that only have to agree on the labels an observer sees. -/

namespace Transition

universe u v w x

structure System (σ : Type u) (ε : Type v) where
  start : σ → Prop
  step : σ → ε → σ → Prop

namespace System
variable {σ : Type u} {τ : Type w} {ε : Type v} (system : System σ ε)

/-- A finite run together with the labels of its steps, in order. -/
inductive Run : σ → List ε → σ → Prop where
  | refl (state) : Run state [] state
  | head {before event middle rest after}
      (first : system.step before event middle) (last : Run middle rest after) :
      Run before (event :: rest) after

def Reachable (state : σ) : Prop :=
  ∃ first events, system.start first ∧ system.Run first events state

/-- The same system where a step is taken only from a state that allows it. -/
def restrict (allowed : σ → ε → Prop) : System σ ε where
  start := system.start
  step before event after := allowed before event ∧ system.step before event after

variable {system}

theorem Run.single {before after : σ} {event : ε} (taken : system.step before event after) :
    system.Run before [event] after := .head taken (.refl _)

theorem Run.append {before middle after : σ} {first last : List ε}
    (one : system.Run before first middle) (two : system.Run middle last after) :
    system.Run before (first ++ last) after := by
  induction one with
  | refl state => exact two
  | head taken _ ih => exact .head taken (ih two)

theorem Run.tail {before middle after : σ} {events : List ε} {event : ε}
    (run : system.Run before events middle) (taken : system.step middle event after) :
    system.Run before (events ++ [event]) after := run.append (.single taken)

theorem Run.split {before after : σ} {first last : List ε} (run : system.Run before (first ++ last) after) :
    ∃ middle, system.Run before first middle ∧ system.Run middle last after := by
  induction first generalizing before with
  | nil => exact ⟨before, .refl _, run⟩
  | cons event rest ih =>
    cases run with
    | head taken remaining =>
      obtain ⟨middle, one, two⟩ := ih remaining
      exact ⟨middle, .head taken one, two⟩

/-- What one step preserves, every run preserves. -/
theorem Run.preserves {property : σ → Prop} {before after : σ} {events : List ε}
    (run : system.Run before events after)
    (step : ∀ before event after, property before → system.step before event after → property after)
    (holds : property before) : property after := by
  induction run with
  | refl state => exact holds
  | head taken _ ih => exact ih (step _ _ _ holds taken)

theorem Run.of_restrict {allowed : σ → ε → Prop} {before after : σ} {events : List ε}
    (run : (system.restrict allowed).Run before events after) : system.Run before events after := by
  induction run with
  | refl state => exact .refl state
  | head taken _ ih => exact .head taken.2 ih

theorem Reachable.initial {state : σ} (start : system.start state) : system.Reachable state :=
  ⟨state, [], start, .refl _⟩

theorem Reachable.step {before after : σ} {event : ε} (reached : system.Reachable before)
    (taken : system.step before event after) : system.Reachable after := by
  obtain ⟨first, events, start, run⟩ := reached
  exact ⟨first, _, start, run.tail taken⟩

theorem Reachable.run {before after : σ} {events : List ε} (reached : system.Reachable before)
    (run : system.Run before events after) : system.Reachable after := by
  obtain ⟨first, earlier, start, prior⟩ := reached
  exact ⟨first, _, start, prior.append run⟩

theorem Reachable.of_restrict {allowed : σ → ε → Prop} {state : σ}
    (reached : (system.restrict allowed).Reachable state) : system.Reachable state := by
  obtain ⟨first, events, start, run⟩ := reached
  exact ⟨first, events, start, run.of_restrict⟩

theorem Run.to_restrict {allowed : σ → ε → Prop} (always : ∀ state event, allowed state event) {before after : σ}
    {events : List ε} (run : system.Run before events after) : (system.restrict allowed).Run before events after := by
  induction run with
  | refl state => exact .refl state
  | head taken _ ih => exact .head ⟨always _ _, taken⟩ ih

theorem Reachable.to_restrict {allowed : σ → ε → Prop} (always : ∀ state event, allowed state event) {state : σ}
    (reached : system.Reachable state) : (system.restrict allowed).Reachable state := by
  obtain ⟨first, events, start, run⟩ := reached
  exact ⟨first, events, start, run.to_restrict always⟩

variable (system) in
/-- An assertion that holds at the start and survives each step. -/
structure Invariant (property : σ → Prop) : Prop where
  initial : ∀ state, system.start state → property state
  step : ∀ before event after, property before → system.step before event after → property after

theorem Invariant.reachable {property : σ → Prop} (invariant : system.Invariant property) {state : σ}
    (reached : system.Reachable state) : property state := by
  obtain ⟨first, events, start, run⟩ := reached
  exact run.preserves invariant.step (invariant.initial first start)

/-- A second invariant may lean on one that is already established. -/
theorem Invariant.strengthen {known property : σ → Prop} (invariant : system.Invariant known)
    (initial : ∀ state, system.start state → property state)
    (step : ∀ before event after, known before → property before →
      system.step before event after → property after) :
    system.Invariant fun state => known state ∧ property state where
  initial state start := ⟨invariant.initial state start, initial state start⟩
  step _ _ _ holds taken :=
    ⟨invariant.step _ _ _ holds.1 taken, step _ _ _ holds.1 holds.2 taken⟩

theorem Invariant.restrict {allowed : σ → ε → Prop} {property : σ → Prop}
    (invariant : system.Invariant property) : (system.restrict allowed).Invariant property where
  initial := invariant.initial
  step _ _ _ holds taken := invariant.step _ _ _ holds taken.2

end System

section Observation
variable {σ : Type u} {τ : Type w} {α : Type x}

/-- What an observer sees of a run whose silent steps carry no label. -/
def visible (events : List (Option α)) : List α := events.filterMap id

@[simp] theorem visible_nil : visible ([] : List (Option α)) = [] := rfl

@[simp] theorem visible_silent (events : List (Option α)) : visible (none :: events) = visible events := rfl

@[simp] theorem visible_seen (label : α) (events : List (Option α)) :
    visible (some label :: events) = label :: visible events := rfl

@[simp] theorem visible_append (first last : List (Option α)) :
    visible (first ++ last) = visible first ++ visible last := List.filterMap_append

/-- Each step of `source` is answered by a run of `target`, possibly empty,
that an observer cannot tell from it. -/
def Simulates (source : System σ (Option α)) (target : System τ (Option α)) (related : σ → τ → Prop) : Prop :=
  ∀ before event after other, related before other → source.step before event after →
    ∃ events final, target.Run other events final ∧ visible events = visible [event] ∧ related after final

theorem Simulates.run {source : System σ (Option α)} {target : System τ (Option α)}
    {related : σ → τ → Prop} (simulates : Simulates source target related)
    {before after : σ} {other : τ} {events : List (Option α)} (same : related before other)
    (run : source.Run before events after) :
    ∃ answered final, target.Run other answered final ∧ visible answered = visible events ∧
      related after final := by
  induction run generalizing other with
  | refl state => exact ⟨[], other, .refl _, rfl, same⟩
  | @head before event middle rest after taken _ ih =>
    obtain ⟨first, between, one, seen, same⟩ := simulates _ _ _ _ same taken
    obtain ⟨last, final, two, remaining, same⟩ := ih same
    refine ⟨first ++ last, final, one.append two, ?_, same⟩
    rw [visible_append, seen, remaining, ← visible_append, List.singleton_append]

end Observation
end Transition

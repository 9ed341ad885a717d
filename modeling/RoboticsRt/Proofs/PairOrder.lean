import RoboticsRt.GpuCollisionManager
import Mathlib.Algebra.Order.Floor.Semifield
import Mathlib.Analysis.Real.Sqrt
import Mathlib.Data.List.FinRange
import Mathlib.Tactic.Ring

/-! The two numberings of the pairs: the order of the host's double loop and the row
formula of the self-check kernel. -/

namespace RoboticsRt

variable {A B : Type}

/-- The pairs of a list in the order of the host's double loop. -/
def pairsOf (xs : List A) : List (A × A) := (hostPairs xs.length).map fun pair => (xs.get pair.1, xs.get pair.2)

theorem hostPairs_succ (n : Nat) :
    hostPairs (n + 1) =
      ((List.finRange n).map fun j => (0, j.succ)) ++ (hostPairs n).map fun pair => (pair.1.succ, pair.2.succ) := by
  have later (i : Fin n) : ((List.finRange (n + 1)).filter (i.succ < ·)).map (fun j => (i.succ, j)) =
      (((List.finRange n).filter (i < ·)).map fun j => (i, j)).map fun pair => (pair.1.succ, pair.2.succ) := by
    simp [List.finRange_succ, List.filter_map, Function.comp_def]
  have first : (List.finRange (n + 1)).filter ((0 : Fin (n + 1)) < ·) = (List.finRange n).map Fin.succ := by
    simp [List.finRange_succ, List.filter_map, Function.comp_def]
  simp only [hostPairs, List.map_flatMap]
  rw [List.finRange_succ, List.flatMap_cons, ← List.finRange_succ, first, List.map_map, List.flatMap_map]
  congr 1
  exact List.flatMap_congr fun i _ => later i

theorem pairsOf_cons (x : A) (rest : List A) :
    pairsOf (x :: rest) = rest.map (fun y => (x, y)) ++ pairsOf rest := by
  have column : (List.finRange rest.length).map rest.get = rest := List.map_get_finRange rest
  have pairs : hostPairs (x :: rest).length = _ := hostPairs_succ rest.length
  unfold pairsOf
  rw [pairs, List.map_append, List.map_map, List.map_map]
  congr 1
  conv_rhs => rw [← column, List.map_map]
  rfl

theorem pairsOf_map (f : A → B) (xs : List A) : pairsOf (xs.map f) = (pairsOf xs).map (Prod.map f f) := by
  induction xs with
  | nil => rfl
  | cons x rest ih =>
    rw [List.map_cons, pairsOf_cons, pairsOf_cons, List.map_append, List.map_map, List.map_map, ih]
    rfl

theorem pairwise_iff_pairsOf {R : A → A → Prop} {xs : List A} :
    xs.Pairwise R ↔ ∀ pair ∈ pairsOf xs, R pair.1 pair.2 := by
  induction xs with
  | nil => simp [pairsOf, hostPairs]
  | cons x rest ih => simp [pairsOf_cons, or_imp, forall_and, ih]

theorem mem_of_mem_pairsOf {xs : List A} {pair : A × A} (member : pair ∈ pairsOf xs) : pair.1 ∈ xs ∧ pair.2 ∈ xs := by
  obtain ⟨indices, _, rfl⟩ := List.mem_map.mp member
  exact ⟨List.get_mem _ _, List.get_mem _ _⟩

theorem pairsOf_length (xs : List A) : (pairsOf xs).length = xs.length * (xs.length - 1) / 2 := by
  have doubled : (pairsOf xs).length * 2 = xs.length * (xs.length - 1) := by
    induction xs with
    | nil => rfl
    | cons x rest ih =>
      rw [pairsOf_cons, List.length_append, List.length_map, Nat.add_mul, ih, List.length_cons, Nat.add_sub_cancel]
      cases rest.length with
      | zero => rfl
      | succ m =>
        rw [Nat.add_sub_cancel]
        ring
  omega

/-- The row formula over the reals, rounded as the conversion to `int` rounds. -/
theorem kernelRow_eq_floor (k : Nat) : kernelRow k = ⌊(√((8 * k + 1 : Nat) : ℝ) - 1) / 2⌋₊ := by
  rw [Nat.floor_div_ofNat, Nat.floor_sub_one, Real.nat_floor_real_sqrt_eq_nat_sqrt, kernelRow]

end RoboticsRt

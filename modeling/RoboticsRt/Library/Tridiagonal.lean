import Mathlib.Algebra.Order.Field.Basic
import Mathlib.Data.Finset.Max
import Mathlib.Tactic.FieldSimp
import Mathlib.Tactic.Linarith
import Mathlib.Tactic.LinearCombination
import Mathlib.Tactic.Ring

/-! Tridiagonal systems with both ends held at zero: the forward sweep with back
substitution solves them, and a dominant diagonal bounds the solution. -/

namespace Tridiagonal

variable {K : Type*} [Field K]

/-- Row `i` reads `lower i * x (i - 1) + diag i * x i + upper i * x (i + 1) = rhs i`. -/
structure System (K : Type*) where
  lower : Nat → K
  diag : Nat → K
  upper : Nat → K
  rhs : Nat → K

/-- The rows strictly between `0` and `n` hold, and both ends are zero. -/
structure System.Solves (system : System K) (n : Nat) (x : Nat → K) : Prop where
  first : x 0 = 0
  last : x n = 0
  row : ∀ i, i + 1 < n →
    system.lower (i + 1) * x i + system.diag (i + 1) * x (i + 1) + system.upper (i + 1) * x (i + 2) = system.rhs (i + 1)

/-- The forward sweep: each row gives `x i = z i - mu i * x (i + 1)`. -/
structure System.Sweep (system : System K) (n : Nat) (l mu z : Nat → K) : Prop where
  mu_first : mu 0 = 0
  z_first : z 0 = 0
  pivot : ∀ i, i + 1 < n → l (i + 1) = system.diag (i + 1) - system.lower (i + 1) * mu i
  mu : ∀ i, i + 1 < n → mu (i + 1) = system.upper (i + 1) / l (i + 1)
  z : ∀ i, i + 1 < n → z (i + 1) = (system.rhs (i + 1) - system.lower (i + 1) * z i) / l (i + 1)

variable {system : System K} {n : Nat} {l mu z x : Nat → K}

theorem System.Sweep.solves (sweep : system.Sweep n l mu z) (pivots : ∀ i, i + 1 < n → l (i + 1) ≠ 0)
    (inner : 0 < n) (last : x n = 0) (back : ∀ i, i < n → x i = z i - mu i * x (i + 1)) : system.Solves n x where
  first := by rw [back 0 inner, sweep.z_first, sweep.mu_first, zero_mul, sub_zero]
  last := last
  row i inside := by
    have pivot := sweep.pivot i inside
    have nonzero := pivots i inside
    have here : l (i + 1) * x (i + 1) =
        system.rhs (i + 1) - system.lower (i + 1) * z i - system.upper (i + 1) * x (i + 2) := by
      rw [back (i + 1) inside, sweep.mu i inside, sweep.z i inside]
      field_simp
    have behind := back i (Nat.lt_of_succ_lt inside)
    linear_combination system.lower (i + 1) * behind + here - x (i + 1) * pivot

section Order
variable [LinearOrder K] [IsStrictOrderedRing K]

/-- A row loses at most its lower entry times the ratio before it. -/
theorem System.Sweep.pivot_ge (sweep : system.Sweep n l mu z) (lower : ∀ i, 0 ≤ system.lower i) {i : Nat} {ratio : K}
    (small : mu i ≤ ratio) (inside : i + 1 < n) :
    system.diag (i + 1) - system.lower (i + 1) * ratio ≤ l (i + 1) := by
  rw [sweep.pivot i inside]
  exact sub_le_sub_left (mul_le_mul_of_nonneg_left small (lower _)) _

/-- Where the diagonal covers `upper` taken `margin` times and `lower` over `margin`, the
ratio stays below the inverse of `margin`. -/
theorem System.Sweep.mu_le (sweep : system.Sweep n l mu z) (lower : ∀ i, 0 ≤ system.lower i)
    (upper : ∀ i, 0 < system.upper i) {margin : K} (positive : 0 < margin)
    (dominant : ∀ i, system.lower i * (1 / margin) + margin * system.upper i ≤ system.diag i) {i : Nat}
    (inside : i < n) : mu i ≤ 1 / margin := by
  induction i with
  | zero => rw [sweep.mu_first]; exact one_div_nonneg.mpr positive.le
  | succ i ih =>
    have large : margin * system.upper (i + 1) ≤ l (i + 1) := by
      linarith [dominant (i + 1), sweep.pivot_ge lower (ih (Nat.lt_of_succ_lt inside)) inside]
    have pivot : 0 < l (i + 1) := lt_of_lt_of_le (mul_pos positive (upper _)) large
    rw [sweep.mu i inside, div_le_div_iff₀ pivot positive, one_mul, mul_comm]
    exact large

/-- With the diagonal above the bound of `mu_le` the pivots stay above `upper` taken
`margin` times, and no ratio reaches the bound. -/
theorem System.Sweep.pivot_lt (sweep : system.Sweep n l mu z) (lower : ∀ i, 0 ≤ system.lower i)
    (upper : ∀ i, 0 < system.upper i) {margin : K} (positive : 0 < margin)
    (dominant : ∀ i, system.lower i * (1 / margin) + margin * system.upper i < system.diag i) {i : Nat}
    (inside : i + 1 < n) : margin * system.upper (i + 1) < l (i + 1) ∧ 0 < mu (i + 1) ∧ mu (i + 1) < 1 / margin := by
  have ratio := sweep.mu_le lower upper positive (fun i => (dominant i).le) (Nat.lt_of_succ_lt inside)
  have large : margin * system.upper (i + 1) < l (i + 1) := by
    linarith [dominant (i + 1), sweep.pivot_ge lower ratio inside]
  have pivot : 0 < l (i + 1) := lt_trans (mul_pos positive (upper _)) large
  refine ⟨large, ?_, ?_⟩
  · rw [sweep.mu i inside]
    exact div_pos (upper _) pivot
  · rw [sweep.mu i inside, div_lt_div_iff₀ pivot positive, one_mul, mul_comm]
    exact large

/-- With a dominant diagonal no pivot vanishes. -/
theorem System.Sweep.pivot_pos (sweep : system.Sweep n l mu z) (lower : ∀ i, 0 ≤ system.lower i)
    (upper : ∀ i, 0 < system.upper i) (dominant : ∀ i, system.lower i + system.upper i ≤ system.diag i) {i : Nat}
    (inside : i + 1 < n) : 0 < l (i + 1) := by
  have ratio : mu i ≤ 1 / 1 := by
    apply sweep.mu_le lower upper one_pos _ (Nat.lt_of_succ_lt inside)
    intro i
    rw [div_one, mul_one, one_mul]
    exact dominant i
  have kept := sweep.pivot_ge lower ratio inside
  rw [div_one, mul_one] at kept
  linarith [dominant (i + 1), upper (i + 1)]

/-- Where the diagonal exceeds its neighbours by `excess`, the right-hand side over
`excess` bounds the solution. -/
theorem System.Solves.abs_le (solves : system.Solves n x) {excess bound : K} (lower : ∀ i, 0 ≤ system.lower i)
    (upper : ∀ i, 0 ≤ system.upper i) (dominant : ∀ i, system.lower i + system.upper i + excess ≤ system.diag i)
    (positive : 0 < excess) (nonneg : 0 ≤ bound) (rhs : ∀ i, i + 1 < n → |system.rhs (i + 1)| ≤ excess * bound)
    {i : Nat} (inside : i ≤ n) : |x i| ≤ bound := by
  -- look at an entry of the largest absolute value
  obtain ⟨m, within, largest⟩ :=
    (Finset.range (n + 1)).exists_max_image (fun i => |x i|) ⟨0, Finset.mem_range.mpr n.succ_pos⟩
  have largest (i : Nat) (inside : i ≤ n) : |x i| ≤ |x m| := largest i (Finset.mem_range.mpr (Nat.lt_succ_of_le inside))
  apply (largest i inside).trans
  have top : m ≤ n := Nat.lt_succ_iff.mp (Finset.mem_range.mp within)
  cases m with
  | zero => rwa [solves.first, abs_zero]
  | succ m =>
    rcases top.eq_or_lt with rfl | inner
    · rwa [solves.last, abs_zero]
    · have row := solves.row m inner
      have behind : system.lower (m + 1) * |x m| ≤ system.lower (m + 1) * |x (m + 1)| :=
        mul_le_mul_of_nonneg_left (largest m (by omega)) (lower _)
      have ahead : system.upper (m + 1) * |x (m + 2)| ≤ system.upper (m + 1) * |x (m + 1)| :=
        mul_le_mul_of_nonneg_left (largest (m + 2) inner) (upper _)
      have diag : 0 ≤ system.diag (m + 1) := by linarith [dominant (m + 1), lower (m + 1), upper (m + 1)]
      have isolated : system.diag (m + 1) * |x (m + 1)| ≤
          |system.rhs (m + 1)| + system.lower (m + 1) * |x m| + system.upper (m + 1) * |x (m + 2)| := by
        calc system.diag (m + 1) * |x (m + 1)|
          _ = |system.diag (m + 1) * x (m + 1)| := by rw [abs_mul, abs_of_nonneg diag]
          _ = |system.rhs (m + 1) - system.lower (m + 1) * x m - system.upper (m + 1) * x (m + 2)| :=
              congrArg abs (by linear_combination row)
          _ ≤ |system.rhs (m + 1)| + |system.lower (m + 1) * x m| + |system.upper (m + 1) * x (m + 2)| :=
              (abs_sub _ _).trans (add_le_add_left (abs_sub _ _) _)
          _ = _ := by rw [abs_mul, abs_mul, abs_of_nonneg (lower _), abs_of_nonneg (upper _)]
      have dominated := mul_le_mul_of_nonneg_right (dominant (m + 1)) (abs_nonneg (x (m + 1)))
      have scaled : excess * |x (m + 1)| ≤ excess * bound := by linarith [rhs m inner]
      exact le_of_mul_le_mul_left scaled positive

omit [LinearOrder K] [IsStrictOrderedRing K] in
/-- The difference of two solutions solves the system without a right-hand side. -/
theorem System.Solves.sub (solves : system.Solves n x) {other : Nat → K} (solved : system.Solves n other) :
    ({ system with rhs := fun _ => 0 } : System K).Solves n fun i => x i - other i where
  first := by rw [solves.first, solved.first, sub_zero]
  last := by rw [solves.last, solved.last, sub_zero]
  row i inside := by
    dsimp only
    linear_combination solves.row i inside - solved.row i inside

/-- A strictly dominant diagonal leaves one solution. -/
theorem System.Solves.unique (solves : system.Solves n x) {other : Nat → K} (solved : system.Solves n other) {excess : K}
    (lower : ∀ i, 0 ≤ system.lower i) (upper : ∀ i, 0 ≤ system.upper i)
    (dominant : ∀ i, system.lower i + system.upper i + excess ≤ system.diag i) (positive : 0 < excess) {i : Nat}
    (inside : i ≤ n) : x i = other i := by
  have apart := (solves.sub solved).abs_le lower upper dominant positive le_rfl
    (fun i _ => by rw [abs_zero, mul_zero]) inside
  exact sub_eq_zero.mp (abs_nonpos_iff.mp apart)

end Order
end Tridiagonal

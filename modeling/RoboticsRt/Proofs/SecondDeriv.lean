import RoboticsRt.Library.Tridiagonal
import RoboticsRt.Proofs.Spline

/-! The second derivatives `M` of the fit. The sweep is an elimination on the tridiagonal
system with the code's right-hand side `alpha`, so `M` solves that system. -/

namespace RoboticsRt

variable {K : Type} [Field K]

/-- The rows of the fit: `h[i-1]`, `2 * (h[i-1] + h[i])`, `h[i]` and `alpha[i]`. -/
def splineSystem (nWp : Nat) (durationS : K) (y : Nat → K) : Tridiagonal.System K where
  lower i := segH nWp durationS (i - 1)
  diag i := 2 • (segH nWp durationS (i - 1) + segH nWp durationS i)
  upper i := segH nWp durationS i
  rhs i := alpha nWp durationS y i

theorem splineSystem_diag (nWp : Nat) (durationS : K) (y : Nat → K) (i : Nat) :
    (splineSystem nWp durationS y).diag i = 2 * (segH nWp durationS (i - 1) + segH nWp durationS i) := by
  dsimp only [splineSystem]
  rw [nsmul_eq_mul, Nat.cast_ofNat]

theorem sweep_succ {nWp i : Nat} (durationS : K) (y : Nat → K) (inside : i + 1 < nWp - 1) :
    sweep nWp durationS y (i + 1) =
      let h := segH nWp durationS
      let prev := sweep nWp durationS y i
      let l := 2 * (h i + h (i + 1)) - h i * prev.mu
      ⟨l, h (i + 1) / l, (alpha nWp durationS y (i + 1) - h i * prev.z) / l⟩ := by
  rw [sweep, if_pos inside]

theorem sweep_eliminates (nWp : Nat) (durationS : K) (y : Nat → K) :
    (splineSystem nWp durationS y).Sweep (nWp - 1) (fun i => (sweep nWp durationS y i).l)
      (fun i => (sweep nWp durationS y i).mu) (fun i => (sweep nWp durationS y i).z) where
  mu_first := rfl
  z_first := rfl
  pivot i inside := by rw [sweep_succ durationS y inside, splineSystem_diag]; rfl
  mu i inside := by rw [sweep_succ durationS y inside]; rfl
  z i inside := by rw [sweep_succ durationS y inside]; rfl

theorem secondDeriv_last (nWp : Nat) (durationS : K) (y : Nat → K) : secondDeriv nWp durationS y (nWp - 1) = 0 := by
  rw [secondDeriv, Nat.sub_self]
  rfl

theorem secondDeriv_back {nWp i : Nat} (durationS : K) (y : Nat → K) (inside : i < nWp - 1) :
    secondDeriv nWp durationS y i =
      (sweep nWp durationS y i).z - (sweep nWp durationS y i).mu * secondDeriv nWp durationS y (i + 1) := by
  obtain ⟨k, count⟩ : ∃ k, nWp - 1 - i = k + 1 := ⟨nWp - 1 - i - 1, by omega⟩
  have row : nWp - 2 - k = i := by omega
  have next : nWp - 1 - (i + 1) = k := by omega
  rw [secondDeriv, count, backSub, row, secondDeriv, next]

variable [LinearOrder K] [IsStrictOrderedRing K]

theorem sweep_pivot_pos {nWp : Nat} (enough : 2 ≤ nWp) {durationS : K} (positive : 0 < durationS) (y : Nat → K) {i : Nat}
    (inside : i + 1 < nWp - 1) : 0 < (sweep nWp durationS y (i + 1)).l := by
  have h (i : Nat) : 0 < segH nWp durationS i := segH_pos enough positive i
  apply (sweep_eliminates nWp durationS y).pivot_pos _ _ _ inside
  · exact fun i => (h (i - 1)).le
  · exact h
  · intro i
    rw [splineSystem_diag]
    dsimp only [splineSystem]
    linarith [h (i - 1), h i]

/-- `M` is zero at both ends and satisfies the interior rows. -/
theorem secondDeriv_solves {nWp : Nat} (enough : 2 ≤ nWp) {durationS : K} (positive : 0 < durationS) (y : Nat → K) :
    (splineSystem nWp durationS y).Solves (nWp - 1) (secondDeriv nWp durationS y) :=
  (sweep_eliminates nWp durationS y).solves (fun _ inside => (sweep_pivot_pos enough positive y inside).ne')
    (by omega) (secondDeriv_last nWp durationS y) fun _ inside => secondDeriv_back durationS y inside

theorem secondDeriv_row {nWp : Nat} (enough : 2 ≤ nWp) {durationS : K} (positive : 0 < durationS) (y : Nat → K) {i : Nat}
    (inside : i + 2 < nWp) :
    let h := durationS / ((nWp - 1 : Nat) : K)
    let M := secondDeriv nWp durationS y
    h ^ 2 * (M i + 4 * M (i + 1) + M (i + 2)) = 3 * (y (i + 2) - 2 * y (i + 1) + y i) := by
  dsimp only
  have row := (secondDeriv_solves enough positive y).row i (by omega)
  have interior : 1 ≤ i + 1 ∧ i + 1 < nWp - 1 := ⟨by omega, by omega⟩
  rw [splineSystem_diag] at row
  dsimp only [splineSystem, alpha] at row
  rw [if_pos interior] at row
  simp only [segH_eq, Nat.add_sub_cancel] at row
  have apart : durationS / ((nWp - 1 : Nat) : K) ≠ 0 := (segH_eq nWp durationS 0 ▸ segH_pos enough positive 0).ne'
  generalize durationS / ((nWp - 1 : Nat) : K) = h at row apart ⊢
  field_simp at row
  linear_combination row

end RoboticsRt

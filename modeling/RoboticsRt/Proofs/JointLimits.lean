import RoboticsRt.Proofs.SecondDeriv
import Mathlib.Tactic.Positivity

/-! How far a fitted curve leaves the limits its waypoints keep. The bounds are checked on
waypoints only; between them the cubic may swing out, by less than a sixth of the width. -/

namespace RoboticsRt

variable {K : Type} [Field K] [LinearOrder K] [IsStrictOrderedRing K]

/-- Second derivatives scaled by `h ^ 2`, for waypoints numbered from `0` to `n`. -/
structure Moments (n : Nat) (y N : Nat → K) : Prop where
  first : N 0 = 0
  last : N n = 0
  row : ∀ i, i + 1 < n → N i + 4 * N (i + 1) + N (i + 2) = 3 * (y (i + 2) - 2 * y (i + 1) + y i)

/-- The curve between waypoints `i` and `i + 1`, with `s` running from 0 to 1. -/
def piece (y N : Nat → K) (i : Nat) (s : K) : K :=
  (1 - s) * y i + s * y (i + 1) - s * (1 - s) / (6 : ℕ) * ((1 + (1 - s)) * N i + (1 + s) * N (i + 1))

omit [LinearOrder K] [IsStrictOrderedRing K] in
theorem piece_eq (y N : Nat → K) (i : Nat) (s : K) :
    piece y N i s = (1 - s) * y i + s * y (i + 1) - s * (1 - s) / 6 * ((2 - s) * N i + (1 + s) * N (i + 1)) := by
  rw [piece, Nat.cast_ofNat]
  ring

variable {n : Nat} {y N : Nat → K} {lo hi : K}

omit [LinearOrder K] [IsStrictOrderedRing K] in
theorem Moments.neg (moments : Moments n y N) : Moments n (fun i => -y i) fun i => -N i where
  first := by rw [moments.first, neg_zero]
  last := by rw [moments.last, neg_zero]
  row i inside := by linear_combination -moments.row i inside

/-- Between limits `lo` and `hi` no moment exceeds three times the width. -/
theorem Moments.le (moments : Moments n y N) (limits : ∀ i ≤ n, lo ≤ y i ∧ y i ≤ hi) {i : Nat} (inside : i ≤ n) :
    N i ≤ 3 * (hi - lo) := by
  let system : Tridiagonal.System K := ⟨fun _ => 1, fun _ => 4, fun _ => 1, fun i => N (i - 1) + 4 * N i + N (i + 1)⟩
  have solves : system.Solves n N := ⟨moments.first, moments.last, fun i _ => by simp [system]⟩
  have width : 0 ≤ hi - lo := sub_nonneg.mpr ((limits 0 n.zero_le).1.trans (limits 0 n.zero_le).2)
  apply (le_abs_self (N i)).trans
  apply solves.abs_le (fun _ => zero_le_one) (fun _ => zero_le_one) _ (two_pos : (0 : K) < 2) (by linarith) _ inside
  · intro _
    norm_num [system]
  · intro i interior
    obtain ⟨lo0, hi0⟩ := limits i (by omega)
    obtain ⟨lo1, hi1⟩ := limits (i + 1) (by omega)
    obtain ⟨lo2, hi2⟩ := limits (i + 2) (by omega)
    simp only [system, Nat.add_sub_cancel]
    rw [moments.row i interior, abs_le]
    constructor <;> linarith

theorem Moments.ahead (moments : Moments n y N) (limits : ∀ i ≤ n, lo ≤ y i ∧ y i ≤ hi) {i : Nat} (inside : i + 1 < n) :
    -(N i + 4 * N (i + 1)) ≤ 3 * ((hi - y i) - 2 * (hi - y (i + 1)) + 2 * (hi - lo)) := by
  have row := moments.row i inside
  have next := moments.le limits (i := i + 2) inside
  linarith [(limits (i + 2) inside).1]

theorem Moments.behind (moments : Moments n y N) (limits : ∀ i ≤ n, lo ≤ y i ∧ y i ≤ hi) {i : Nat} (inside : i + 1 < n) :
    -(4 * N (i + 1) + N (i + 2)) ≤ 3 * ((hi - y (i + 2)) - 2 * (hi - y (i + 1)) + 2 * (hi - lo)) := by
  have row := moments.row i inside
  have previous := moments.le limits (i := i) (by omega)
  linarith [(limits i (by omega)).1]

/-! The swing of one piece. `u` and `v` are the distances of its ends from the limit. -/

section Swing
variable {s u v width first second : K}

theorem area_le (s : K) : s * (1 - s) ≤ 1 / 4 := by nlinarith [sq_nonneg (s - 1 / 2)]

end Swing

theorem secondDeriv_moments {nWp : Nat} (enough : 2 ≤ nWp) {durationS : K} (positive : 0 < durationS) (y : Nat → K) :
    Moments (nWp - 1) y fun i => segH nWp durationS 0 ^ 2 * secondDeriv nWp durationS y i where
  first := by rw [(secondDeriv_solves enough positive y).first, mul_zero]
  last := by rw [secondDeriv_last, mul_zero]
  row i inside := by
    have row := secondDeriv_row enough positive y (i := i) (by omega)
    dsimp only at row
    rw [segH_eq]
    linear_combination row

theorem fitSegment_at_eq_piece {nWp : Nat} {durationS : K} (y : Nat → K) (i : Nat) (tau : K)
    (apart : segH nWp durationS 0 ≠ 0) :
    (fitSegment nWp durationS y i).at tau =
      piece y (fun i => segH nWp durationS 0 ^ 2 * secondDeriv nWp durationS y i) i (tau / segH nWp durationS 0) := by
  have same : segH nWp durationS i = segH nWp durationS 0 := by rw [segH_eq, segH_eq]
  have cubic (h first last m next : K) (apart : h ≠ 0) :
      first + ((last - first) * (1 / h) - h * (2 * m + next) / 6) * tau + m / 2 * tau * tau
        + (next - m) / (6 * h) * tau * tau * tau =
      (1 - tau / h) * first + tau / h * last
        - tau / h * (1 - tau / h) / 6 * ((2 - tau / h) * (h ^ 2 * m) + (1 + tau / h) * (h ^ 2 * next)) := by
    field_simp
    ring
  rw [← same] at apart ⊢
  rw [piece_eq]
  exact cubic _ _ _ _ _ apart

variable {waypoints : List (List K)} {dofs : Nat} {durationS : K} {qMin qMax : Nat → K}

end RoboticsRt

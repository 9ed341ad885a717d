import RoboticsRt.Proofs.CheckedFit
import RoboticsRt.Proofs.HandOver

/-! When the fit is total with doubles. Rounding never takes a pivot to zero, and never two
knots to one unless the duration between them is lost altogether: all that is needed of the
sweep is that its ratios stay shares of one, which rounding keeps. -/

namespace RoboticsRt
namespace Checked
open Except BinaryFloat BinaryFloat.Value

theorem representable_int {n : ℤ} (small : |n| < 2 ^ 53) : binary64.Representable n := by
  refine ⟨⟨n, 0, by simp, small, by decide⟩, ?_⟩
  have wide : ((2 ^ 53 : ℤ) : ℚ) ≤ 2 ^ (1024 : ℤ) := by
    have power : ((2 ^ 53 : ℤ) : ℚ) = 2 ^ (53 : ℤ) := by norm_num
    rw [power]
    exact zpow_le_zpow_right₀ one_le_two (by decide)
  rw [← Int.cast_abs]
  exact (Int.cast_lt.mpr small).trans_le wide

theorem cast_eq {n : ℤ} (small : |n| < 2 ^ 53) : ((n : ℤ) : Double) = .finite n (representable_int small) :=
  round_representable _

theorem representable_one : binary64.Representable 1 := by
  have one := representable_int (n := 1) (by decide)
  rwa [Int.cast_one] at one

theorem twice_infinite : ((2 : ℤ) : Double) * infinite false = .infinite false := by
  have two : |(2 : ℤ)| < 2 ^ 53 := by decide
  rw [cast_eq two, finite_mul_infinite, if_neg (by norm_num), decide_eq_false (by norm_num)]
  rfl

/-- With a positive distance on both sides and a ratio below one, the pivot is no zero and the
next ratio is below one again, rounded or not. -/
theorem row_next {a b mu : Double} (first : a.Positive) (second : b.Positive) (part : mu.Between 0 1) :
    ((2 : ℤ) : Double) * (a + b) - a * mu ≠ (0 : ℤ) ∧
      (b / (((2 : ℤ) : Double) * (a + b) - a * mu)).Between 0 1 := by
  have nan_row (row : ((2 : ℤ) : Double) * (a + b) - a * mu = .nan) : ((2 : ℤ) : Double) * (a + b) - a * mu ≠ (0 : ℤ) ∧
      (b / (((2 : ℤ) : Double) * (a + b) - a * mu)).Between 0 1 := by
    rw [row, div_nan, zero_eq]
    exact ⟨nofun, trivial⟩
  cases a with
  | nan => exact nan_row (by simp)
  | infinite s =>
    -- an infinity from which another is taken, or what is no number already
    obtain rfl : s = false := first
    have total : ((2 : ℤ) : Double) * (infinite false + b) = .nan ∨
        ((2 : ℤ) : Double) * (infinite false + b) = .infinite false := by
      cases b with
      | nan => exact Or.inl (by simp)
      | infinite t =>
        obtain rfl : t = false := second
        exact Or.inr twice_infinite
      | finite => exact Or.inr twice_infinite
    have product : infinite false * mu = .nan ∨ infinite false * mu = .infinite false := by
      cases mu with
      | nan => exact Or.inl rfl
      | infinite => exact part.elim
      | finite m =>
        rw [infinite_mul_finite, decide_eq_false part.1.not_gt]
        split
        · exact Or.inl rfl
        · exact Or.inr rfl
    refine nan_row ?_
    rcases total with left | left <;> rcases product with right | right <;> rw [left, right] <;> rfl
  | finite x fits =>
    have product := mul_between fits (le_of_lt first) part
    cases b with
    | nan => exact nan_row (by simp)
    | infinite t =>
      obtain rfl : t = false := second
      have total : ((2 : ℤ) : Double) * (finite x fits + infinite false) = .infinite false := twice_infinite
      rw [total, zero_eq]
      cases row : finite x fits * mu with
      | nan => exact ⟨nofun, trivial⟩
      | infinite =>
        rw [row] at product
        exact product.elim
      | finite => exact ⟨nofun, trivial⟩
    | finite y fits' =>
      have two : |(2 : ℤ)| < 2 ^ 53 := by decide
      have sum := twice_atLeast (representable_int two) fits fits' first second
      have pivot := sub_atLeast fits'.1 second sum product
      exact ⟨(pivot.positive second).ne_zero, div_between representable_one fits' second pivot⟩

theorem pivot_of_positive {step : Double} {n : Nat} (positive : ∀ i < n, (segH step i).Positive) :
    ∀ i < n, (pivot step i).2.Between 0 1 ∧ (0 < i → (pivot step i).1 ≠ (0 : ℤ)) := by
  intro i inside
  induction i with
  | zero =>
    refine ⟨?_, fun impossible => absurd impossible (Nat.lt_irrefl 0)⟩
    rw [pivot, zero_eq]
    exact ⟨le_rfl, zero_le_one⟩
  | succ i ih =>
    have before := Nat.lt_of_succ_lt inside
    obtain ⟨nonzero, part⟩ := row_next (positive i before) (positive (i + 1) inside) (ih before).1
    exact ⟨part, fun _ => nonzero⟩

theorem segH_neg (step : Double) (i : Nat) : segH (-step) i = -segH step i := by
  unfold segH tKnot
  rw [Value.neg_mul, Value.neg_mul, neg_sub_neg]

theorem pivot_neg {step : Double} {n : Nat} (positive : ∀ i < n, (segH step i).Positive) {i : Nat} (inside : i < n) :
    (pivot (-step) i).2 = (pivot step i).2 ∧ (0 < i → (pivot (-step) i).1 ≠ (0 : ℤ)) := by
  induction i with
  | zero => exact ⟨rfl, fun impossible => absurd impossible (Nat.lt_irrefl 0)⟩
  | succ i ih =>
    have same := (ih (Nat.lt_of_succ_lt inside)).1
    have nonzero := (pivot_of_positive positive (i + 1) inside).2 (Nat.succ_pos i)
    have turned : (pivot (-step) (i + 1)).1 = -(pivot step (i + 1)).1 := by
      rw [pivot, pivot]
      dsimp only
      rw [segH_neg, segH_neg, same, neg_add_neg, Value.mul_neg, Value.neg_mul, neg_sub_neg]
    refine ⟨?_, fun _ => ?_⟩
    · have ratio : (pivot (-step) (i + 1)).2 = segH (-step) (i + 1) / (pivot (-step) (i + 1)).1 := rfl
      rw [ratio, turned, segH_neg, div_neg_eq _ nonzero, Value.neg_div, Value.neg_neg]
      rfl
    · rw [turned]
      exact neg_ne_zero_iff.mpr nonzero

theorem six_mul_ne_zero {h : Double} (nonzero : h ≠ (0 : ℤ)) : ((6 : ℤ) : Double) * h ≠ (0 : ℤ) := by
  have six : |(6 : ℤ)| < 2 ^ 53 := by decide
  rw [cast_eq six, zero_eq]
  cases h with
  | nan => nofun
  | infinite s =>
    rw [finite_mul_infinite, if_neg (by norm_num)]
    nofun
  | finite value fits =>
    have least := fits.1.least_le (finite_ne_zero.mp nonzero)
    have kept : binary64.rounded (((6 : ℤ) : ℚ) * value) ≠ 0 := by
      have half : (2 : ℚ) ^ (binary64.least - 1) < 2 ^ binary64.least := zpow_lt_zpow_right₀ one_lt_two (by omega)
      rw [Ne, rounded_eq_zero_iff, abs_mul, Int.cast_ofNat, abs_of_pos (by norm_num)]
      linarith [abs_nonneg value]
    rw [finite_mul_finite]
    by_cases bounded : |binary64.rounded (((6 : ℤ) : ℚ) * value)| < 2 ^ binary64.bound
    · rw [round_fits bounded]
      exact fun same => kept (finite.inj same)
    · rw [round_overflow bounded]
      nofun

/-- The duration, divided among the segments, does not vanish. -/
def Spread (durationS : Double) (nSegments : Nat) : Prop :=
  ∀ value fits, durationS = .finite value fits → nSegments * 2 ^ (-1075 : ℤ) < |value|

theorem vanishing_nonneg (n : Nat) : (0 : ℚ) ≤ n * 2 ^ (-1075 : ℤ) := mul_nonneg (Nat.cast_nonneg n) (two_zpow_pos _).le

theorem cast_nat {n : Nat} (few : n ≤ 2 ^ 31) : ∃ fits, ((n : ℤ) : Double) = .finite n fits := by
  have small : |(n : ℤ)| < 2 ^ 53 := by
    rw [abs_of_nonneg (Int.natCast_nonneg n)]
    omega
  refine ⟨representable_int small, (cast_eq small).trans (finite_congr (Int.cast_natCast n))⟩

theorem segH_of_finite {q : ℚ} (fits : binary64.Representable q) (positive : 0 < q) {i : Nat} (few : i + 1 ≤ 2 ^ 31) :
    (segH (.finite q fits : Double) i).Positive := by
  obtain ⟨here, first⟩ := cast_nat (Nat.le_of_succ_le few)
  obtain ⟨there, second⟩ := cast_nat few
  have ascending : binary64.rounded (q * i) < binary64.rounded (q * (i + 1)) := by
    refine rounded_step_lt fits.1 positive ?_
    have count : ((i + 1 : Nat) : ℚ) ≤ ((2 ^ 31 : Nat) : ℚ) := Nat.cast_le.mpr few
    push_cast at count
    exact count.trans (by norm_num [binary64])
  have nonneg : 0 ≤ binary64.rounded (q * i) := rounded_nonneg (by positivity)
  have knot (x : ℚ) (at_ : 0 ≤ x) : (∃ fits, round binary64 x = .finite (binary64.rounded x) fits) ∨
      2 ^ binary64.bound ≤ binary64.rounded x ∧ round binary64 x = .infinite false := by
    by_cases bounded : |binary64.rounded x| < 2 ^ binary64.bound
    · exact Or.inl ⟨_, round_fits bounded⟩
    · rw [round_overflow bounded, decide_eq_false at_.not_gt]
      rw [abs_of_nonneg (rounded_nonneg at_)] at bounded
      exact Or.inr ⟨not_lt.mp bounded, rfl⟩
  unfold segH tKnot
  rw [first, second, finite_mul_finite, finite_mul_finite, Nat.cast_succ]
  rcases knot (q * (i + 1)) (by positivity) with ⟨fits', next⟩ | ⟨beyond, next⟩
  · rcases knot (q * i) (by positivity) with ⟨fits'', previous⟩ | ⟨beyond, _⟩
    · rw [next, previous, finite_sub_finite]
      exact (round_atLeast onGrid_least (two_zpow_pos _) (fits''.1.apart fits'.1 ascending)).positive (two_zpow_pos _)
    · have bounded := (le_abs_self _).trans_lt fits'.2
      linarith
  · rcases knot (q * i) (by positivity) with ⟨_, previous⟩ | ⟨_, previous⟩
    · rw [next, previous]
      rfl
    · rw [next, previous]
      trivial

theorem segH_positive {durationS : Double} (positive : durationS.Positive) {n : Nat} (some : 0 < n) (few : n ≤ 2 ^ 31)
    (spread : Spread durationS n) {i : Nat} (inside : i < n) : (segH (durationS / ((n : ℤ) : Double)) i).Positive := by
  obtain ⟨fits, count⟩ := cast_nat few
  have divisor : (0 : ℚ) < n := Nat.cast_pos.mpr some
  rw [count]
  cases durationS with
  | nan => trivial
  | infinite s =>
    -- the knots are infinite, and the first is no number
    obtain rfl : s = false := positive
    obtain ⟨here, first⟩ := cast_nat (by omega : i ≤ 2 ^ 31)
    obtain ⟨there, second⟩ := cast_nat (by omega : i + 1 ≤ 2 ^ 31)
    have next : (0 : ℚ) < (i + 1 : Nat) := Nat.cast_pos.mpr (Nat.succ_pos i)
    unfold segH tKnot
    rw [first, second, infinite_div_finite, decide_eq_false divisor.not_gt]
    change (infinite false * finite _ there - infinite false * finite _ here : Double).Positive
    rw [infinite_mul_finite, infinite_mul_finite, if_neg next.ne', decide_eq_false next.not_gt,
      decide_eq_false (Nat.cast_nonneg i).not_gt]
    split
    · trivial
    · trivial
  | finite value fits' =>
    have above : (0 : ℚ) < value := positive
    have part : 0 < value / n := div_pos above divisor
    have kept : binary64.rounded (value / n) ≠ 0 := by
      have large := spread value fits' rfl
      rw [abs_of_pos above, mul_comm, ← lt_div_iff₀ divisor] at large
      rw [Ne, rounded_eq_zero_iff, abs_of_pos part, not_le]
      exact large
    have step_pos := lt_of_le_of_ne (rounded_nonneg part.le) kept.symm
    have one : (1 : ℚ) ≤ n := by exact_mod_cast some
    have most := rounded_le part.le fits'.1 (div_le_self above.le one)
    have bounded : |binary64.rounded (value / n)| < 2 ^ binary64.bound := by
      rw [abs_of_pos step_pos]
      exact (most.trans (le_abs_self value)).trans_lt fits'.2
    rw [finite_div_finite, if_neg divisor.ne', round_fits bounded]
    exact segH_of_finite _ step_pos (by omega)

theorem segH_of_lost {value : ℚ} {fits : binary64.Representable value} {n : Nat} (some : 0 < n) (few : n ≤ 2 ^ 31)
    (lost : |value| ≤ n * 2 ^ (-1075 : ℤ)) : segH ((finite value fits : Double) / ((n : ℤ) : Double)) 0 = (0 : ℤ) := by
  obtain ⟨_, count⟩ := cast_nat few
  have divisor : (0 : ℚ) < n := Nat.cast_pos.mpr some
  have step : (finite value fits : Double) / ((n : ℤ) : Double) = (0 : ℤ) := by
    rw [count, finite_div_finite, if_neg divisor.ne']
    refine round_eq_zero ((rounded_eq_zero_iff _).mpr ?_)
    rw [abs_div, abs_of_pos divisor, div_le_iff₀ divisor, mul_comm]
    exact lost
  have knot {i : Nat} (few : i ≤ 2 ^ 31) : tKnot ((0 : ℤ) : Double) i = (0 : ℤ) := by
    obtain ⟨_, here⟩ := cast_nat few
    rw [tKnot, here, zero_eq, finite_mul_finite, zero_mul, ← zero_eq]
    exact round_eq_zero rounded_zero
  rw [step, segH, knot (by decide), knot (by decide), zero_eq, finite_sub_finite, sub_zero, ← zero_eq]
  exact round_eq_zero rounded_zero

theorem divisible_iff {durationS : Double} {n : Nat} (some : 0 < n) (few : n ≤ 2 ^ 31) :
    Divisible (durationS / ((n : ℤ) : Double)) n ↔ Spread durationS n := by
  constructor
  · rintro divisible value fits rfl
    by_contra small
    exact divisible.h 0 some (segH_of_lost some few (not_lt.mp small))
  · intro spread
    rcases sign_cases durationS with (positive | negative) | zero
    · have spaced (i : Nat) (inside : i < n) := segH_positive positive some few spread inside
      exact ⟨fun i inside => (spaced i inside).ne_zero, fun i inside => six_mul_ne_zero (spaced i inside).ne_zero,
        fun i inside => (pivot_of_positive spaced (i + 1) inside).2 (Nat.succ_pos i)⟩
    · have turned : Spread (-durationS) n := by
        intro value fits same
        have original := spread (-value) fits.neg (by rw [← Value.neg_neg durationS, same, neg_finite])
        rwa [abs_neg] at original
      have spaced (i : Nat) (inside : i < n) := segH_positive negative some few turned inside
      have step : durationS / ((n : ℤ) : Double) = -(-durationS / ((n : ℤ) : Double)) := by
        rw [Value.neg_div, Value.neg_neg]
      have apart (i : Nat) (inside : i < n) : segH (durationS / ((n : ℤ) : Double)) i ≠ (0 : ℤ) := by
        rw [step, segH_neg]
        exact neg_ne_zero_iff.mpr (spaced i inside).ne_zero
      refine ⟨apart, fun i inside => six_mul_ne_zero (apart i inside), fun i inside => ?_⟩
      rw [step]
      exact (pivot_neg spaced inside).2 (Nat.succ_pos i)
    · have small := spread 0 representable_zero (zero.trans zero_eq)
      rw [abs_zero] at small
      exact absurd small (vanishing_nonneg n).not_gt

theorem toInt_bounds (size : Nat) : toInt size < 2 ^ 31 := by
  unfold toInt
  have below := Int.bmod_lt (x := size) (m := 2 ^ 32) (by decide)
  omega

theorem constants : ((6 : ℤ) : Double) ≠ (0 : ℤ) ∧ ((2 : ℤ) : Double) ≠ (0 : ℤ) := by
  have six : |(6 : ℤ)| < 2 ^ 53 := by decide
  have two : |(2 : ℤ)| < 2 ^ 53 := by decide
  rw [cast_eq six, cast_eq two]
  exact ⟨finite_ne_zero.mpr (by norm_num), finite_ne_zero.mpr (by norm_num)⟩

/-- Past the two checks the fit returns, with no divisor zero and no read out of range, exactly when the
duration is more than half the least double for each segment and no waypoint is shorter than the first. -/
theorem fit_total_iff {waypoints : List (List Double)} {durationS : Double} (enough : 2 ≤ toInt waypoints.length)
    (joints : waypoints.getD 0 [] ≠ []) : (fitCubicSpline waypoints durationS).Returns ↔
      0 ≤ toInt (waypoints.getD 0 []).length ∧ (0 < toInt (waypoints.getD 0 []).length →
        Spread durationS ((toInt waypoints.length).toNat - 1) ∧
          ∀ i < (toInt waypoints.length).toNat, toInt (waypoints.getD 0 []).length ≤ (waypoints.getD i []).length) := by
  let nDofs := toInt (waypoints.getD 0 []).length
  have most := toInt_bounds waypoints.length
  obtain ⟨n, count⟩ : ∃ n : Nat, toInt waypoints.length = n + 1 := ⟨(toInt waypoints.length - 1).toNat, by omega⟩
  have some : 0 < n := by omega
  have few : n ≤ 2 ^ 31 := by omega
  obtain ⟨_, segments⟩ := cast_nat few
  have divisor : ((n : ℤ) : Double) ≠ (0 : ℤ) := by
    rw [segments]
    exact finite_ne_zero.mpr (Nat.cast_ne_zero.mpr some.ne')
  rw [fit_returns constants enough joints, count, add_sub_cancel_right, Int.toNat_natCast_add_one, Nat.add_sub_cancel]
  simp only [divisible_iff some few]
  rw [and_iff_right divisor]
  refine and_congr_right fun nonneg => ?_
  constructor
  · intro fitted positive
    refine ⟨(fitted 0 (by omega)).2, fun i inside => ?_⟩
    have last := (fitted (nDofs.toNat - 1) (by omega)).1 i inside
    omega
  · intro fits j dof
    obtain ⟨spread, long⟩ := fits (by omega)
    refine ⟨fun i inside => ?_, spread⟩
    have size := long i inside
    omega

/-! A request for one joint with the duration zero: the loop hands it to the fit, whose first
segment then has no length. Nor has it with the least of all durations and three waypoints. -/

def atOnce : PlanRequest Unit ℚ := { zeroToOne with durationS := 0 }

def leastDouble : Double := .finite (2 ^ (-1074 : ℤ)) ⟨onGrid_least, by
  rw [abs_of_pos (two_zpow_pos _)]
  exact zpow_lt_zpow_right₀ one_lt_two (by decide)⟩

theorem lost_faults {value : ℚ} {fits : binary64.Representable value} {n : Nat} (some : 0 < n) (few : n < 2 ^ 31 - 1)
    (lost : |value| ≤ n * 2 ^ (-1075 : ℤ)) {waypoints : List (List Double)} (count : waypoints.length = n + 1)
    (joint : (waypoints.getD 0 []).length = 1) : ¬ (fitCubicSpline waypoints (.finite value fits)).Returns := by
  have length : toInt waypoints.length = n + 1 := by
    rw [toInt_small (by omega), count]
    rfl
  have joints : waypoints.getD 0 [] ≠ [] := List.ne_nil_of_length_eq_add_one joint
  rw [fit_returns constants (by omega) joints, length, joint, add_sub_cancel_right, Int.toNat_natCast_add_one,
    Nat.add_sub_cancel]
  rintro ⟨_, _, fitted⟩
  exact (fitted 0 (by decide)).2.h 0 some (segH_of_lost some (by omega) lost)

theorem atOnce_divides_by_zero :
    planRequest oneJoint (fun _ => true) atOnce (pathTo .exactSolution 1) = some (RoboticsRt.fitCubicSpline [[0], [1]] 0) ∧
      ¬ (fitCubicSpline [[((0 : ℤ) : Double)], [((1 : ℤ) : Double)]] (0 : ℤ)).Returns ∧
      ¬ (fitCubicSpline [[((0 : ℤ) : Double)], [((1 : ℤ) : Double)], [((0 : ℤ) : Double)]] leastDouble).Returns := by
  refine ⟨rfl, ?_, ?_⟩
  · rw [zero_eq]
    exact lost_faults Nat.one_pos (by decide) (abs_zero.trans_le (vanishing_nonneg 1)) rfl rfl
  · refine lost_faults Nat.two_pos (by decide) (le_of_eq ?_) rfl rfl
    rw [abs_of_pos (two_zpow_pos _), Nat.cast_ofNat, ← zpow_one_add₀ two_ne_zero]
    rfl

theorem zeroToOne_total : (fitCubicSpline [[((0 : ℤ) : Double)], [((1 : ℤ) : Double)]] (1 : ℤ)).Returns := by
  have one : |(1 : ℤ)| < 2 ^ 53 := by decide
  have joints : [[((0 : ℤ) : Double)], [((1 : ℤ) : Double)]].getD 0 [] ≠ [] := List.cons_ne_nil _ _
  refine (fit_total_iff (by decide) joints).mpr ⟨by decide, fun _ => ⟨fun value fits same => ?_, ?_⟩⟩
  · rw [cast_eq one] at same
    cases same
    have segments : (toInt 2).toNat - 1 = 1 := by decide
    have small : (2 : ℚ) ^ (-1075 : ℤ) < 1 := zpow_lt_one_of_neg₀ one_lt_two (by decide)
    simpa [segments] using small
  · decide

end Checked
end RoboticsRt

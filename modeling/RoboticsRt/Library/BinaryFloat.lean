import Mathlib.Data.Int.Log
import Mathlib.Data.Rat.Floor
import Mathlib.Tactic.Linarith
import Mathlib.Tactic.NormNum
import Mathlib.Tactic.Positivity
import Mathlib.Tactic.Ring

/-! Binary floating-point arithmetic, rounded to nearest with ties to even. Below the values
stand the rationals they are chosen from: a grid whose points are further apart the larger
they are, and what can be said of rounding without computing it, by sandwiching with points
of the grid. -/

namespace BinaryFloat

/-- The nearest integer, the even one of two. -/
def nearestEven (x : ℚ) : ℤ :=
  if x - ⌊x⌋ < 1 / 2 ∨ (x - ⌊x⌋ = 1 / 2 ∧ ⌊x⌋ % 2 = 0) then ⌊x⌋ else ⌊x⌋ + 1

theorem nearestEven_cases (x : ℚ) :
    nearestEven x = ⌊x⌋ ∧ x ≤ ⌊x⌋ + 1 / 2 ∨ nearestEven x = ⌊x⌋ + 1 ∧ ⌊x⌋ + 1 / 2 ≤ x := by
  unfold nearestEven
  split
  next down =>
    refine Or.inl ⟨rfl, ?_⟩
    rcases down with near | ⟨tie, _⟩ <;> linarith
  next up =>
    refine Or.inr ⟨rfl, ?_⟩
    have far := le_of_not_gt (not_or.mp up).1
    linarith

@[simp] theorem nearestEven_intCast (n : ℤ) : nearestEven n = n := by
  simp [nearestEven]

theorem le_nearestEven {x : ℚ} {n : ℤ} (below : n ≤ x) : n ≤ nearestEven x := by
  have floor : n ≤ ⌊x⌋ := Int.le_floor.mpr below
  rcases nearestEven_cases x with ⟨same, _⟩ | ⟨same, _⟩ <;> omega

theorem nearestEven_le {x : ℚ} {n : ℤ} (above : x ≤ n) : nearestEven x ≤ n := by
  have floor : ⌊x⌋ ≤ n := Int.cast_le.mp ((Int.floor_le x).trans above)
  rcases nearestEven_cases x with ⟨same, _⟩ | ⟨same, far⟩
  · exact same.trans_le floor
  · have apart : ⌊x⌋ ≠ n := by
      rintro equal
      rw [equal] at far
      linarith
    omega

theorem nearestEven_neg (x : ℚ) : nearestEven (-x) = -nearestEven x := by
  by_cases whole : (⌊x⌋ : ℚ) = x
  · rw [← whole, ← Int.cast_neg, nearestEven_intCast, nearestEven_intCast]
  · have below := lt_of_le_of_ne (Int.floor_le x) whole
    have floor : ⌊-x⌋ = -⌊x⌋ - 1 := by
      have above := Int.lt_floor_add_one x
      rw [Int.floor_eq_iff]
      push_cast
      constructor <;> linarith
    have rest : -x - ⌊-x⌋ = 1 - (x - ⌊x⌋) := by
      rw [floor]
      push_cast
      ring
    unfold nearestEven
    rw [rest, floor]
    rcases lt_trichotomy (x - ⌊x⌋) (1 / 2) with near | tie | far
    · rw [if_neg, if_pos (Or.inl near)]
      · omega
      · rintro (less | ⟨equal, _⟩) <;> linarith
    · by_cases even : ⌊x⌋ % 2 = 0
      · rw [if_neg, if_pos (Or.inr ⟨tie, even⟩)]
        · omega
        · rintro (less | ⟨_, odd⟩)
          · linarith
          · omega
      · rw [if_pos (Or.inr ⟨by linarith, by omega⟩), if_neg]
        · omega
        · rintro (less | ⟨_, odd⟩)
          · linarith
          · exact even odd
    · rw [if_pos (Or.inl (by linarith)), if_neg]
      · omega
      · rintro (less | ⟨equal, _⟩) <;> linarith

/-- What rounds to zero from above. -/
theorem nearestEven_eq_zero_iff {x : ℚ} (nonneg : 0 ≤ x) : nearestEven x = 0 ↔ x ≤ 1 / 2 := by
  constructor
  · intro zero
    rcases nearestEven_cases x with ⟨same, near⟩ | ⟨same, far⟩
    · rw [← same, zero] at near
      simpa using near
    · have floor := Int.floor_nonneg.mpr nonneg
      omega
  · intro near
    have floor : ⌊x⌋ = 0 := by
      rw [Int.floor_eq_zero_iff]
      constructor <;> linarith
    unfold nearestEven
    rw [floor, if_pos]
    rcases near.lt_or_eq with less | equal
    · exact Or.inl (by simpa using less)
    · exact Or.inr ⟨by simpa using equal, rfl⟩

/-- How many binary digits are kept, where the last one stands at the lowest, and the power of two
all numbers stay below. -/
structure Format where
  precision : ℕ
  least : ℤ
  bound : ℤ
  digits : 0 < precision

variable (fmt : Format)

/-- Where the last digit kept of a number stands. -/
def Format.lastPlace (x : ℚ) : ℤ := max (Int.log 2 |x| + 1 - fmt.precision) fmt.least

def Format.rounded (x : ℚ) : ℚ := nearestEven (x / 2 ^ fmt.lastPlace x) * 2 ^ fmt.lastPlace x

/-- The numbers that need no rounding, were there no largest one. -/
def Format.OnGrid (x : ℚ) : Prop := ∃ m e : ℤ, x = m * 2 ^ e ∧ |m| < 2 ^ fmt.precision ∧ fmt.least ≤ e

variable {x y g : ℚ}

theorem two_zpow_pos (e : ℤ) : (0 : ℚ) < 2 ^ e := zpow_pos (by norm_num) e

theorem Format.lastPlace_ge (x : ℚ) : fmt.least ≤ fmt.lastPlace x := le_max_right _ _

theorem Format.lastPlace_neg (x : ℚ) : fmt.lastPlace (-x) = fmt.lastPlace x := by
  rw [Format.lastPlace, Format.lastPlace, abs_neg]

theorem Format.lastPlace_mono (positive : 0 < x) (le : x ≤ y) : fmt.lastPlace x ≤ fmt.lastPlace y := by
  have log : Int.log 2 x ≤ Int.log 2 y := Int.log_mono_right positive le
  unfold Format.lastPlace
  rw [abs_of_pos positive, abs_of_pos (positive.trans_le le)]
  omega

/-- A number has no more digits left of its last place than are kept. -/
theorem Format.abs_lt_lastPlace (x : ℚ) : |x| < 2 ^ fmt.precision * 2 ^ fmt.lastPlace x := by
  have log : |x| < (2 : ℚ) ^ (Int.log 2 |x| + 1) := by exact_mod_cast Int.lt_zpow_succ_log_self one_lt_two |x|
  refine log.trans_le ?_
  rw [← zpow_natCast, ← zpow_add₀ two_ne_zero]
  have place : Int.log 2 |x| + 1 - fmt.precision ≤ fmt.lastPlace x := le_max_left _ _
  exact zpow_le_zpow_right₀ one_le_two (by omega)

variable {fmt}

/-- A number whose last place is not the lowest has all its digits. -/
theorem first_digit_le (nonzero : x ≠ 0) (high : fmt.least < fmt.lastPlace x) :
    2 ^ (fmt.lastPlace x + fmt.precision - 1) ≤ |x| := by
  have place : fmt.lastPlace x + fmt.precision - 1 = Int.log 2 |x| := by
    unfold Format.lastPlace at high ⊢
    omega
  rw [place]
  exact_mod_cast Int.zpow_log_le_self one_lt_two (abs_pos.mpr nonzero)

theorem onGrid_zero : fmt.OnGrid 0 := ⟨0, fmt.least, by simp, by simp, le_rfl⟩

theorem Format.OnGrid.neg (grid : fmt.OnGrid g) : fmt.OnGrid (-g) := by
  obtain ⟨m, e, rfl, digits, low⟩ := grid
  exact ⟨-m, e, by push_cast; ring, by rwa [abs_neg], low⟩

theorem Format.OnGrid.double (grid : fmt.OnGrid g) : fmt.OnGrid (2 * g) := by
  obtain ⟨m, e, rfl, digits, low⟩ := grid
  exact ⟨m, e + 1, by rw [zpow_add_one₀ two_ne_zero]; ring, digits, by omega⟩

/-- As many digits as are kept, at the last place of some number. -/
theorem multiple_onGrid (x : ℚ) {n : ℤ} (digits : |n| ≤ 2 ^ fmt.precision) :
    fmt.OnGrid (n * 2 ^ fmt.lastPlace x) := by
  have low := fmt.lastPlace_ge x
  rcases digits.lt_or_eq with fewer | carry
  · exact ⟨n, _, rfl, fewer, low⟩
  -- the carry is a power of two, with one digit at the next place
  · obtain ⟨k, rfl⟩ : 2 ∣ n := by
      rw [← dvd_abs, carry]
      exact dvd_pow_self 2 fmt.digits.ne'
    have fewer : |k| < 2 ^ fmt.precision := by
      rw [abs_mul, abs_two] at carry
      have positive : (0 : ℤ) < 2 ^ fmt.precision := by positivity
      omega
    refine ⟨k, fmt.lastPlace x + 1, ?_, fewer, by omega⟩
    rw [zpow_add_one₀ two_ne_zero]
    push_cast
    ring

/-- A power of two counts in any smaller one. -/
theorem multiple_of_le {a b : ℤ} (le : a ≤ b) (n : ℤ) : ∃ k : ℤ, (n : ℚ) * 2 ^ b = k * 2 ^ a := by
  refine ⟨n * 2 ^ (b - a).toNat, ?_⟩
  push_cast
  rw [mul_assoc, ← zpow_natCast, ← zpow_add₀ two_ne_zero]
  congr 2
  omega

/-- Points of the grid are whole multiples of their own last place. -/
theorem Format.OnGrid.multiple (grid : fmt.OnGrid g) : ∃ n : ℤ, g = n * 2 ^ fmt.lastPlace g := by
  obtain ⟨m, e, rfl, digits, low⟩ := grid
  rcases eq_or_ne ((m : ℚ) * 2 ^ e) 0 with zero | nonzero
  · exact ⟨0, by simp [zero]⟩
  refine multiple_of_le ?_ m
  by_contra outside
  have high : fmt.least < fmt.lastPlace (m * 2 ^ e) := low.trans_lt (lt_of_not_ge outside)
  have first := first_digit_le nonzero high
  have size : |(m : ℚ) * 2 ^ e| < 2 ^ (fmt.precision + e) := by
    rw [abs_mul, abs_of_pos (two_zpow_pos e), ← Int.cast_abs, zpow_add₀ two_ne_zero, zpow_natCast]
    exact mul_lt_mul_of_pos_right (by exact_mod_cast digits) (two_zpow_pos e)
  have place := (zpow_lt_zpow_iff_right₀ (one_lt_two (α := ℚ))).mp (first.trans_lt size)
  omega

/-- Points of the grid are whole multiples of the lowest place. -/
theorem Format.OnGrid.multiple_least (grid : fmt.OnGrid g) : ∃ n : ℤ, g = n * 2 ^ fmt.least := by
  obtain ⟨m, e, rfl, _, low⟩ := grid
  exact multiple_of_le low m

theorem rounded_onGrid (x : ℚ) : fmt.OnGrid (fmt.rounded x) := by
  refine multiple_onGrid x ?_
  have place := two_zpow_pos (fmt.lastPlace x)
  have size : |x / 2 ^ fmt.lastPlace x| ≤ ((2 ^ fmt.precision : ℤ) : ℚ) := by
    rw [abs_div, abs_of_pos place, div_le_iff₀ place]
    push_cast
    exact (fmt.abs_lt_lastPlace x).le
  obtain ⟨low, high⟩ := abs_le.mp size
  rw [← Int.cast_neg] at low
  exact abs_le.mpr ⟨le_nearestEven low, nearestEven_le high⟩

/-- Rounding leaves the points of the grid where they are. -/
theorem Format.OnGrid.rounded (grid : fmt.OnGrid g) : fmt.rounded g = g := by
  obtain ⟨n, multiple⟩ := grid.multiple
  have whole : g / 2 ^ fmt.lastPlace g = n := by
    rw [div_eq_iff (two_zpow_pos _).ne']
    exact multiple
  rw [Format.rounded, whole, nearestEven_intCast]
  exact multiple.symm

@[simp] theorem rounded_zero : fmt.rounded 0 = 0 := onGrid_zero.rounded

theorem rounded_neg (x : ℚ) : fmt.rounded (-x) = -fmt.rounded x := by
  rw [Format.rounded, fmt.lastPlace_neg, neg_div, nearestEven_neg, Int.cast_neg, neg_mul]
  rfl

/-- Nothing rounds past a whole multiple of its last place. -/
theorem rounded_le_multiple {n : ℤ} (above : x ≤ n * 2 ^ fmt.lastPlace x) :
    fmt.rounded x ≤ n * 2 ^ fmt.lastPlace x := by
  have place := two_zpow_pos (fmt.lastPlace x)
  have nearest : nearestEven (x / 2 ^ fmt.lastPlace x) ≤ n := nearestEven_le ((div_le_iff₀ place).mpr above)
  exact mul_le_mul_of_nonneg_right (Int.cast_le.mpr nearest) place.le

theorem multiple_le_rounded {n : ℤ} (below : n * 2 ^ fmt.lastPlace x ≤ x) :
    n * 2 ^ fmt.lastPlace x ≤ fmt.rounded x := by
  have place := two_zpow_pos (fmt.lastPlace x)
  have nearest : n ≤ nearestEven (x / 2 ^ fmt.lastPlace x) := le_nearestEven ((le_div_iff₀ place).mpr below)
  exact mul_le_mul_of_nonneg_right (Int.cast_le.mpr nearest) place.le

theorem rounded_nonneg (nonneg : 0 ≤ x) : 0 ≤ fmt.rounded x := by
  have origin : ((0 : ℤ) : ℚ) * 2 ^ fmt.lastPlace x ≤ x := by simpa using nonneg
  simpa using multiple_le_rounded origin

/-- Nothing rounds past a point of the grid, from below. -/
theorem rounded_le (nonneg : 0 ≤ x) (grid : fmt.OnGrid g) (below : x ≤ g) : fmt.rounded x ≤ g := by
  rcases nonneg.eq_or_lt with rfl | positive
  · rwa [rounded_zero]
  obtain ⟨n, multiple⟩ := grid.multiple
  obtain ⟨k, same⟩ := multiple_of_le (fmt.lastPlace_mono positive below) n
  rw [same] at multiple
  rw [multiple] at below ⊢
  exact rounded_le_multiple below

/-- Nor from above. -/
theorem le_rounded (nonneg : 0 ≤ g) (grid : fmt.OnGrid g) (above : g ≤ x) : g ≤ fmt.rounded x := by
  rcases nonneg.eq_or_lt with rfl | positive
  · exact rounded_nonneg above
  rcases (fmt.lastPlace_mono positive above).eq_or_lt with same | further
  · obtain ⟨n, multiple⟩ := grid.multiple
    rw [same] at multiple
    rw [multiple] at above ⊢
    exact multiple_le_rounded above
  -- the first digit of `x` stands further left than any of `g`
  · have larger := positive.trans_le above
    have first := first_digit_le larger.ne' ((fmt.lastPlace_ge g).trans_lt further)
    rw [abs_of_pos larger] at first
    have power : (2 : ℚ) ^ (fmt.lastPlace x + fmt.precision - 1) =
        ((2 ^ (fmt.precision - 1) : ℤ) : ℚ) * 2 ^ fmt.lastPlace x := by
      have digits := fmt.digits
      push_cast
      rw [← zpow_natCast, ← zpow_add₀ two_ne_zero]
      congr 1
      omega
    have smaller : g ≤ 2 ^ (fmt.lastPlace x + fmt.precision - 1) := by
      have size := fmt.abs_lt_lastPlace g
      rw [abs_of_pos positive, ← zpow_natCast, ← zpow_add₀ two_ne_zero] at size
      exact size.le.trans (zpow_le_zpow_right₀ one_le_two (by omega))
    rw [power] at first smaller
    exact smaller.trans (multiple_le_rounded first)

/-- A step as long as two units, or of whole units, passes two neighbouring multiples of the unit. -/
theorem neighbours_within {q unit : ℚ} (positive : 0 < unit) (long : 2 * unit ≤ q ∨ ∃ k : ℤ, 0 < k ∧ q = k * unit)
    (i : ℕ) : ∃ n : ℤ, q * i ≤ n * unit ∧ (n + 1 : ℤ) * unit ≤ q * (i + 1) := by
  rcases long with two | ⟨k, some, rfl⟩
  · have least := Int.ceil_lt_add_one (q * i / unit)
    refine ⟨⌈q * i / unit⌉, (div_le_iff₀ positive).mp (Int.le_ceil _), ?_⟩
    have scaled : (⌈q * i / unit⌉ : ℚ) * unit < q * i + unit := by
      rw [← lt_div_iff₀ positive, add_div, div_self positive.ne']
      exact least
    push_cast
    linarith
  · refine ⟨k * i, le_of_eq (by push_cast; ring), ?_⟩
    have one : (1 : ℚ) * unit ≤ k * unit := mul_le_mul_of_nonneg_right (by exact_mod_cast some) positive.le
    push_cast
    linarith

/-- Steps of one length, not too many of them, still lead upwards once they are rounded. -/
theorem rounded_step_lt {q : ℚ} (grid : fmt.OnGrid q) (positive : 0 < q) {i : ℕ}
    (few : (i : ℚ) + 1 ≤ 2 ^ ((fmt.precision : ℤ) - 2)) : fmt.rounded (q * i) < fmt.rounded (q * (i + 1)) := by
  let place := fmt.lastPlace (q * (i + 1))
  have unit : (0 : ℚ) < 2 ^ place := two_zpow_pos place
  have count : (0 : ℚ) ≤ i := Nat.cast_nonneg i
  have larger : 0 < q * (i + 1) := by positivity
  have long : 2 * (2 : ℚ) ^ place ≤ q ∨ ∃ k : ℤ, 0 < k ∧ q = k * (2 : ℚ) ^ place := by
    rcases (fmt.lastPlace_ge (q * (i + 1))).eq_or_lt with low | high
    · obtain ⟨k, multiple⟩ := grid.multiple_least
      rw [low] at multiple
      refine Or.inr ⟨k, ?_, multiple⟩
      rw [multiple] at positive
      exact_mod_cast pos_of_mul_pos_left positive unit.le
    · left
      have first := first_digit_le larger.ne' high
      rw [abs_of_pos larger] at first
      have power : (2 : ℚ) ^ (place + fmt.precision - 1) = 2 * 2 ^ place * 2 ^ ((fmt.precision : ℤ) - 2) := by
        rw [mul_assoc, ← zpow_add₀ two_ne_zero, ← zpow_one_add₀ two_ne_zero]
        congr 1
        ring
      have most : q * (i + 1) ≤ q * 2 ^ ((fmt.precision : ℤ) - 2) := mul_le_mul_of_nonneg_left few positive.le
      exact le_of_mul_le_mul_right (power ▸ first.trans most) (two_zpow_pos _)
  obtain ⟨n, first, second⟩ := neighbours_within unit long i
  have digits : |n| ≤ 2 ^ fmt.precision := by
    have size := fmt.abs_lt_lastPlace (q * (i + 1))
    rw [abs_of_pos larger] at size
    have nonneg : (0 : ℚ) ≤ n := nonneg_of_mul_nonneg_left ((mul_nonneg positive.le count).trans first) unit
    have below : ((n + 1 : ℤ) : ℚ) < 2 ^ fmt.precision := lt_of_mul_lt_mul_right (second.trans_lt size) unit.le
    rw [abs_of_nonneg (by exact_mod_cast nonneg)]
    have below : n + 1 < 2 ^ fmt.precision := by exact_mod_cast below
    omega
  have apart : (n : ℚ) * 2 ^ place < (n + 1 : ℤ) * 2 ^ place := by
    push_cast
    linarith
  calc fmt.rounded (q * i)
    _ ≤ n * 2 ^ place := rounded_le (mul_nonneg positive.le count) (multiple_onGrid _ digits) first
    _ < (n + 1 : ℤ) * 2 ^ place := apart
    _ ≤ fmt.rounded (q * (i + 1)) := multiple_le_rounded second

private theorem rounded_eq_zero_iff_of_nonneg (nonneg : 0 ≤ x) : fmt.rounded x = 0 ↔ x ≤ 2 ^ (fmt.least - 1) := by
  have half : (2 : ℚ) ^ (fmt.least - 1) = 1 / 2 * 2 ^ fmt.least := by
    rw [zpow_sub_one₀ two_ne_zero]
    ring
  have lost (low : fmt.lastPlace x = fmt.least) : fmt.rounded x = 0 ↔ x ≤ 2 ^ (fmt.least - 1) := by
    have place := two_zpow_pos fmt.least
    rw [Format.rounded, low, mul_eq_zero_iff_right place.ne', Int.cast_eq_zero,
      nearestEven_eq_zero_iff (div_nonneg nonneg place.le), div_le_iff₀ place, half]
  rcases nonneg.eq_or_lt with rfl | larger
  · exact iff_of_true rounded_zero (two_zpow_pos _).le
  rcases (fmt.lastPlace_ge x).eq_or_lt with low | high
  · exact lost low.symm
  · have first := first_digit_le larger.ne' high
    rw [abs_of_pos larger] at first
    have digits := fmt.digits
    have power : fmt.OnGrid (2 ^ (fmt.lastPlace x + fmt.precision - 1)) := by
      refine ⟨1, fmt.lastPlace x + fmt.precision - 1, by simp, ?_, by omega⟩
      rw [abs_one]
      exact one_lt_pow₀ one_lt_two digits.ne'
    have positive := two_zpow_pos (fmt.lastPlace x + fmt.precision - 1)
    have kept := le_rounded positive.le power first
    refine iff_of_false (positive.trans_le kept).ne' ?_
    rw [not_le]
    exact (zpow_lt_zpow_right₀ one_lt_two (by omega)).trans_le first

/-- What is lost altogether: half the least number, and anything smaller. -/
theorem rounded_eq_zero_iff (x : ℚ) : fmt.rounded x = 0 ↔ |x| ≤ 2 ^ (fmt.least - 1) := by
  rcases abs_cases x with ⟨same, nonneg⟩ | ⟨turned, negative⟩
  · rw [same]
    exact rounded_eq_zero_iff_of_nonneg nonneg
  · have opposite : fmt.rounded x = -fmt.rounded (-x) := by rw [rounded_neg, neg_neg]
    rw [opposite, neg_eq_zero, turned]
    exact rounded_eq_zero_iff_of_nonneg (neg_nonneg.mpr negative.le)

/-- Different points of the grid are at least the least number apart. -/
theorem Format.OnGrid.apart (lower : fmt.OnGrid x) (upper : fmt.OnGrid y) (less : x < y) : 2 ^ fmt.least ≤ y - x := by
  have unit := two_zpow_pos fmt.least
  obtain ⟨m, rfl⟩ := lower.multiple_least
  obtain ⟨n, rfl⟩ := upper.multiple_least
  have counts : m + 1 ≤ n := by
    have fewer := lt_of_mul_lt_mul_right less unit.le
    exact_mod_cast fewer
  have one : ((m + 1 : ℤ) : ℚ) * 2 ^ fmt.least ≤ n * 2 ^ fmt.least :=
    mul_le_mul_of_nonneg_right (by exact_mod_cast counts) unit.le
  push_cast at one
  linarith

theorem Format.OnGrid.least_le (grid : fmt.OnGrid g) (nonzero : g ≠ 0) : 2 ^ fmt.least ≤ |g| := by
  rcases nonzero.lt_or_gt with negative | positive
  · have gap := grid.apart onGrid_zero negative
    rwa [abs_of_neg negative, ← zero_sub]
  · have gap := onGrid_zero.apart grid positive
    rwa [abs_of_pos positive, ← sub_zero g]

/-! The values, and what is done with them. -/

/-- The points of the grid below the bound. -/
def Format.Representable (fmt : Format) (x : ℚ) : Prop := fmt.OnGrid x ∧ |x| < 2 ^ fmt.bound

theorem Format.Representable.neg (fits : fmt.Representable x) : fmt.Representable (-x) :=
  ⟨fits.1.neg, by rw [abs_neg]; exact fits.2⟩

/-- There is one zero: its sign would show in quotients by zero only. -/
inductive Value (fmt : Format) where
  | nan
  | infinite (negative : Bool)
  | finite (value : ℚ) (fits : fmt.Representable value)
  deriving DecidableEq

theorem representable_rounded {x : ℚ} (fits : |fmt.rounded x| < 2 ^ fmt.bound) : fmt.Representable (fmt.rounded x) :=
  ⟨rounded_onGrid x, fits⟩

namespace Value

def round (fmt : Format) (x : ℚ) : Value fmt :=
  if fits : |fmt.rounded x| < 2 ^ fmt.bound then .finite (fmt.rounded x) (representable_rounded fits)
  else .infinite (x < 0)

def neg : Value fmt → Value fmt
  | .nan => .nan
  | .infinite negative => .infinite !negative
  | .finite value fits => .finite (-value) fits.neg

def add : Value fmt → Value fmt → Value fmt
  | .nan, _ | _, .nan => .nan
  | .infinite a, .infinite b => if a = b then .infinite a else .nan
  | .infinite a, .finite _ _ => .infinite a
  | .finite _ _, .infinite b => .infinite b
  | .finite a _, .finite b _ => round fmt (a + b)

def mul : Value fmt → Value fmt → Value fmt
  | .nan, _ | _, .nan => .nan
  | .infinite a, .infinite b => .infinite (a != b)
  | .infinite a, .finite b _ => if b = 0 then .nan else .infinite (a != decide (b < 0))
  | .finite a _, .infinite b => if a = 0 then .nan else .infinite (decide (a < 0) != b)
  | .finite a _, .finite b _ => round fmt (a * b)

def div : Value fmt → Value fmt → Value fmt
  | .nan, _ | _, .nan => .nan
  | .infinite _, .infinite _ => .nan
  | .infinite a, .finite b _ => .infinite (a != decide (b < 0))
  | .finite _ _, .infinite _ => round fmt 0
  | .finite a _, .finite b _ => if b = 0 then if a = 0 then .nan else .infinite (a < 0) else round fmt (a / b)

instance : IntCast (Value fmt) := ⟨fun n => round fmt n⟩
instance : Neg (Value fmt) := ⟨neg⟩
instance : Add (Value fmt) := ⟨add⟩
instance : Sub (Value fmt) := ⟨fun a b => add a (neg b)⟩
instance : Mul (Value fmt) := ⟨mul⟩
instance : Div (Value fmt) := ⟨div⟩

theorem finite_congr {a b : ℚ} {fits : fmt.Representable a} {fits' : fmt.Representable b} (same : a = b) :
    (finite a fits : Value fmt) = .finite b fits' := by
  subst same
  rfl

theorem round_fits {x : ℚ} (fits : |fmt.rounded x| < 2 ^ fmt.bound) :
    round fmt x = .finite (fmt.rounded x) (representable_rounded fits) := dif_pos fits

theorem round_overflow {x : ℚ} (beyond : ¬ |fmt.rounded x| < 2 ^ fmt.bound) : round fmt x = .infinite (x < 0) :=
  dif_neg beyond

theorem representable_zero : fmt.Representable 0 := ⟨onGrid_zero, by rw [abs_zero]; exact two_zpow_pos _⟩

/-- A number that is representable stays as it is. -/
theorem round_representable {x : ℚ} (fits : fmt.Representable x) : round fmt x = .finite x fits := by
  have same := fits.1.rounded
  rw [round_fits (same.symm ▸ fits.2)]
  exact finite_congr same

theorem zero_eq : ((0 : ℤ) : Value fmt) = .finite 0 representable_zero :=
  (congrArg (round fmt) Int.cast_zero).trans (round_representable representable_zero)

theorem round_eq_zero {x : ℚ} (lost : fmt.rounded x = 0) : round fmt x = (0 : ℤ) := by
  have fits : |fmt.rounded x| < 2 ^ fmt.bound := by
    rw [lost, abs_zero]
    exact two_zpow_pos _
  rw [round_fits fits, zero_eq]
  exact finite_congr lost

theorem finite_ne_zero {x : ℚ} {fits : fmt.Representable x} :
    (finite x fits : Value fmt) ≠ (0 : ℤ) ↔ x ≠ 0 := by
  rw [zero_eq]
  exact not_congr ⟨fun same => (finite.inj same), finite_congr⟩

section NotANumber
variable (a : Value fmt)

@[simp] theorem nan_add : nan + a = nan := rfl
@[simp] theorem nan_sub : nan - a = nan := rfl
@[simp] theorem nan_mul : nan * a = nan := rfl
@[simp] theorem nan_div : nan / a = nan := rfl
@[simp] theorem add_nan : a + nan = nan := by cases a <;> rfl
@[simp] theorem sub_nan : a - nan = nan := add_nan a
@[simp] theorem mul_nan : a * nan = nan := by cases a <;> rfl
@[simp] theorem div_nan : a / nan = nan := by cases a <;> rfl

end NotANumber

section Equations
variable {a b : ℚ} (s : Bool) (fits : fmt.Representable a) (fits' : fmt.Representable b)

theorem neg_finite : -(finite a fits : Value fmt) = .finite (-a) fits.neg := rfl

theorem finite_add_finite : (finite a fits + finite b fits' : Value fmt) = round fmt (a + b) := rfl

theorem finite_sub_finite : (finite a fits - finite b fits' : Value fmt) = round fmt (a - b) :=
  congrArg (round fmt) (sub_eq_add_neg a b).symm

theorem finite_mul_finite : (finite a fits * finite b fits' : Value fmt) = round fmt (a * b) := rfl

theorem infinite_mul_finite : (infinite s * finite a fits : Value fmt) =
    if a = 0 then .nan else .infinite (s != decide (a < 0)) := rfl

theorem finite_mul_infinite : (finite a fits * infinite s : Value fmt) =
    if a = 0 then .nan else .infinite (decide (a < 0) != s) := rfl

theorem infinite_div_finite : (infinite s / finite a fits : Value fmt) = .infinite (s != decide (a < 0)) := rfl

theorem finite_div_finite : (finite a fits / finite b fits' : Value fmt) =
    if b = 0 then if a = 0 then .nan else .infinite (a < 0) else round fmt (a / b) := rfl

end Equations

/-! Bounds. They say nothing of what is not a number. -/

def Positive : Value fmt → Prop
  | .nan => True
  | .infinite negative => negative = false
  | .finite value _ => 0 < value

def AtLeast (low : ℚ) : Value fmt → Prop
  | .nan => True
  | .infinite negative => negative = false
  | .finite value _ => low ≤ value

def Between (low high : ℚ) : Value fmt → Prop
  | .nan => True
  | .infinite _ => False
  | .finite value _ => low ≤ value ∧ value ≤ high

/-! Signs. -/

theorem sign_cases (a : Value fmt) : (a.Positive ∨ (-a).Positive) ∨ a = (0 : ℤ) := by
  cases a with
  | nan => exact Or.inl (Or.inl trivial)
  | infinite s =>
    cases s with
    | false => exact Or.inl (Or.inl rfl)
    | true => exact Or.inl (Or.inr rfl)
  | finite a fits =>
    rcases lt_trichotomy a 0 with negative | zero | positive
    · exact Or.inl (Or.inr (neg_pos.mpr negative))
    · exact Or.inr ((finite_congr zero).trans zero_eq.symm)
    · exact Or.inl (Or.inl positive)

theorem decide_neg_lt {x : ℚ} (nonzero : x ≠ 0) : decide (-x < 0) = !decide (x < 0) := by
  rcases nonzero.lt_or_gt with negative | positive
  · simp [negative, negative.le]
  · simp [positive, positive.le]

theorem round_neg (x : ℚ) : round fmt (-x) = -round fmt x := by
  by_cases fits : |fmt.rounded x| < 2 ^ fmt.bound
  · have turned : |fmt.rounded (-x)| < 2 ^ fmt.bound := by rwa [rounded_neg, abs_neg]
    rw [round_fits fits, round_fits turned]
    exact finite_congr (rounded_neg x)
  · have turned : ¬ |fmt.rounded (-x)| < 2 ^ fmt.bound := by rwa [rounded_neg, abs_neg]
    have nonzero : x ≠ 0 := by
      rintro rfl
      rw [rounded_zero, abs_zero] at fits
      exact fits (two_zpow_pos _)
    rw [round_overflow fits, round_overflow turned]
    exact congrArg _ (decide_neg_lt nonzero)

theorem neg_ne_zero_iff {a : Value fmt} : -a ≠ (0 : ℤ) ↔ a ≠ (0 : ℤ) := by
  cases a with
  | nan | infinite =>
    rw [zero_eq]
    exact iff_of_true nofun nofun
  | finite a => rw [neg_finite, finite_ne_zero, finite_ne_zero, neg_ne_zero]

protected theorem neg_neg (a : Value fmt) : -(-a) = a := by
  cases a with
  | nan => rfl
  | infinite negative => exact congrArg _ (Bool.not_not negative)
  | finite a => exact finite_congr (neg_neg a)

theorem neg_add_neg (a b : Value fmt) : -a + -b = -(a + b) := by
  cases a with
  | nan => rfl
  | infinite s =>
    cases b with
    | nan | finite => rfl
    | infinite t => cases s <;> cases t <;> rfl
  | finite a =>
    cases b with
    | nan | infinite => rfl
    | finite b => exact (congrArg (round fmt) (neg_add a b).symm).trans (round_neg _)

theorem neg_sub_neg (a b : Value fmt) : -a - -b = -(a - b) := neg_add_neg a (-b)

protected theorem neg_mul (a b : Value fmt) : -a * b = -(a * b) := by
  cases a with
  | nan => rfl
  | infinite s =>
    cases b with
    | nan => rfl
    | infinite t => cases s <;> cases t <;> rfl
    | finite b =>
      change infinite (!s) * _ = _
      rw [infinite_mul_finite, infinite_mul_finite]
      split
      · rfl
      · exact congrArg Value.infinite (Bool.not_bne s _)
  | finite a =>
    cases b with
    | nan => rfl
    | infinite t =>
      rw [neg_finite, finite_mul_infinite, finite_mul_infinite]
      by_cases zero : a = 0
      · rw [if_pos (neg_eq_zero.mpr zero), if_pos zero]
        rfl
      · rw [if_neg (neg_ne_zero.mpr zero), if_neg zero, decide_neg_lt zero]
        exact congrArg Value.infinite (Bool.not_bne _ t)
    | finite b => exact (congrArg (round fmt) (neg_mul a b)).trans (round_neg _)

protected theorem mul_comm (a b : Value fmt) : a * b = b * a := by
  cases a with
  | nan => cases b <;> rfl
  | infinite s =>
    cases b with
    | nan => rfl
    | infinite t => cases s <;> cases t <;> rfl
    | finite b => rw [infinite_mul_finite, finite_mul_infinite, bne_comm]
  | finite a =>
    cases b with
    | nan => rfl
    | infinite t => rw [infinite_mul_finite, finite_mul_infinite, bne_comm]
    | finite b => rw [finite_mul_finite, finite_mul_finite, mul_comm]

protected theorem mul_neg (a b : Value fmt) : a * -b = -(a * b) := by
  rw [Value.mul_comm, Value.neg_mul, Value.mul_comm]

protected theorem neg_div (a b : Value fmt) : -a / b = -(a / b) := by
  cases a with
  | nan => rfl
  | infinite s =>
    cases b with
    | nan | infinite => rfl
    | finite b => exact congrArg Value.infinite (Bool.not_bne s _)
  | finite a =>
    cases b with
    | nan => rfl
    | infinite t => exact (congrArg (round fmt) neg_zero.symm).trans (round_neg 0)
    | finite b =>
      rw [neg_finite, finite_div_finite, finite_div_finite]
      by_cases zero : b = 0
      · rw [if_pos zero, if_pos zero]
        by_cases none : a = 0
        · rw [if_pos (neg_eq_zero.mpr none), if_pos none]
          rfl
        · rw [if_neg (neg_ne_zero.mpr none), if_neg none, decide_neg_lt none]
          rfl
      · rw [if_neg zero, if_neg zero, neg_div]
        exact round_neg _

theorem div_neg_eq (a : Value fmt) {b : Value fmt} (divisor : b ≠ (0 : ℤ)) : a / -b = -(a / b) := by
  cases a with
  | nan => rfl
  | infinite s =>
    cases b with
    | nan | infinite => rfl
    | finite b =>
      have nonzero : b ≠ 0 := finite_ne_zero.mp divisor
      rw [neg_finite, infinite_div_finite, infinite_div_finite, decide_neg_lt nonzero]
      exact congrArg Value.infinite (Bool.bne_not s _)
  | finite a =>
    cases b with
    | nan => rfl
    | infinite t => exact (congrArg (round fmt) neg_zero.symm).trans (round_neg 0)
    | finite b =>
      have nonzero : b ≠ 0 := finite_ne_zero.mp divisor
      rw [neg_finite, finite_div_finite, finite_div_finite, if_neg (neg_ne_zero.mpr nonzero), if_neg nonzero, div_neg]
      exact round_neg _

/-! What is kept within bounds. -/

theorem Positive.ne_zero {a : Value fmt} (positive : a.Positive) : a ≠ (0 : ℤ) := by
  cases a with
  | nan | infinite =>
    rw [zero_eq]
    nofun
  | finite a => exact finite_ne_zero.mpr (ne_of_gt positive)

theorem AtLeast.positive {low : ℚ} {a : Value fmt} (least : a.AtLeast low) (positive : 0 < low) : a.Positive := by
  cases a with
  | nan | infinite => exact least
  | finite a => exact positive.trans_le least

theorem AtLeast.mono {low less : ℚ} {a : Value fmt} (least : a.AtLeast low) (le : less ≤ low) : a.AtLeast less := by
  cases a with
  | nan | infinite => exact least
  | finite a => exact le.trans least

theorem onGrid_least : fmt.OnGrid (2 ^ fmt.least) := by
  refine ⟨1, fmt.least, by simp, ?_, le_rfl⟩
  rw [abs_one]
  exact one_lt_pow₀ one_lt_two fmt.digits.ne'

theorem round_atLeast {low x : ℚ} (grid : fmt.OnGrid low) (positive : 0 < low) (least : low ≤ x) :
    (round fmt x).AtLeast low := by
  by_cases fits : |fmt.rounded x| < 2 ^ fmt.bound
  · rw [round_fits fits]
    exact le_rounded positive.le grid least
  · rw [round_overflow fits]
    exact decide_eq_false (positive.trans_le least).not_gt

theorem round_between {high x : ℚ} (fits : fmt.Representable high) (nonneg : 0 ≤ x) (most : x ≤ high) :
    (round fmt x).Between 0 high := by
  have low : 0 ≤ fmt.rounded x := rounded_nonneg nonneg
  have above := rounded_le nonneg fits.1 most
  have bounded : |fmt.rounded x| < 2 ^ fmt.bound := by
    rw [abs_of_nonneg low]
    exact (above.trans (le_abs_self high)).trans_lt fits.2
  rw [round_fits bounded]
  exact ⟨low, above⟩

/-- A share of a number is no larger than the number. -/
theorem mul_between {x : ℚ} (fits : fmt.Representable x) (nonneg : 0 ≤ x) {share : Value fmt} (part : share.Between 0 1) :
    (finite x fits * share).Between 0 x := by
  cases share with
  | nan => trivial
  | infinite => exact part.elim
  | finite m => exact round_between fits (mul_nonneg nonneg part.1) (mul_le_of_le_one_right nonneg part.2)

theorem sub_atLeast {low high : ℚ} (grid : fmt.OnGrid low) (positive : 0 < low) {a b : Value fmt}
    (least : a.AtLeast (high + low)) (part : b.Between 0 high) : (a - b).AtLeast low := by
  cases a with
  | nan => trivial
  | infinite s =>
    cases b with
    | nan => trivial
    | infinite => exact part.elim
    | finite b => exact least
  | finite a =>
    cases b with
    | nan => trivial
    | infinite => exact part.elim
    | finite b =>
      rw [finite_sub_finite]
      refine round_atLeast grid positive ?_
      have total : high + low ≤ a := least
      linarith [part.2]

/-- Twice a rounded sum is at least the sum. -/
theorem twice_atLeast (two : fmt.Representable (2 : ℤ)) {x y : ℚ} (fits : fmt.Representable x) (fits' : fmt.Representable y)
    (first : 0 < x) (second : 0 < y) :
    (((2 : ℤ) : Value fmt) * (finite x fits + finite y fits')).AtLeast (x + y) := by
  have constant : ((2 : ℤ) : Value fmt) = .finite (2 : ℤ) two := round_representable two
  have left := le_rounded first.le fits.1 (le_add_of_nonneg_right second.le)
  have right := le_rounded second.le fits'.1 (le_add_of_nonneg_left first.le)
  rw [constant, finite_add_finite]
  by_cases bounded : |fmt.rounded (x + y)| < 2 ^ fmt.bound
  · rw [round_fits bounded, finite_mul_finite]
    have grid : fmt.OnGrid (2 * fmt.rounded (x + y)) := (rounded_onGrid _).double
    have twice : 2 * fmt.rounded (x + y) ≤ ((2 : ℤ) : ℚ) * fmt.rounded (x + y) := by rw [Int.cast_ofNat]
    exact (round_atLeast grid (by linarith) twice).mono (by linarith)
  · have sum : 0 < x + y := by linarith
    have signs : (decide (((2 : ℤ) : ℚ) < 0) != decide (x + y < 0)) = false := by
      rw [decide_eq_false (by norm_num), decide_eq_false sum.not_gt]
      rfl
    rw [round_overflow bounded, finite_mul_infinite, if_neg (by norm_num), signs]
    rfl

/-- A quotient by something no smaller is a share. -/
theorem div_between (one : fmt.Representable 1) {x : ℚ} (fits : fmt.Representable x) (positive : 0 < x) {a : Value fmt}
    (least : a.AtLeast x) : (finite x fits / a).Between 0 1 := by
  cases a with
  | nan => trivial
  | infinite => exact round_between one le_rfl zero_le_one
  | finite a =>
    have larger : 0 < a := positive.trans_le least
    rw [finite_div_finite, if_neg larger.ne']
    exact round_between one (div_nonneg positive.le larger.le) ((div_le_one larger).mpr least)

end Value

end BinaryFloat

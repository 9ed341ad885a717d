import RoboticsRt.Proofs.SecondDeriv

/-! The Thomas sweep of the fit as the source indexes it. Segments of one length make the
diagonal four times either neighbour, so a pivot keeps more than three of the four. -/

namespace RoboticsRt

variable {K : Type} [Field K]

/-- What `M` is solved for: natural boundary conditions and one row for each interior waypoint. -/
structure NaturalRows (nWp : Nat) (durationS : K) (y M : Nat → K) : Prop where
  first : M 0 = 0
  last : M (nWp - 1) = 0
  row : ∀ i, 1 ≤ i → i ≤ nWp - 2 →
    let h := segH nWp durationS
    h (i - 1) * M (i - 1) + 2 * (h (i - 1) + h i) * M i + h i * M (i + 1) = alpha nWp durationS y i

variable {nWp : Nat} {durationS : K} {y M : Nat → K}

theorem naturalRows_iff : NaturalRows nWp durationS y M ↔ (splineSystem nWp durationS y).Solves (nWp - 1) M := by
  constructor
  · intro natural
    refine ⟨natural.first, natural.last, ?_⟩
    intro i inside
    have row := natural.row (i + 1) (by omega) (by omega)
    rw [splineSystem_diag]
    exact row
  · intro solves
    refine ⟨solves.first, solves.last, ?_⟩
    intro i interior inside
    obtain ⟨i, rfl⟩ : ∃ k, i = k + 1 := ⟨i - 1, by omega⟩
    have row := solves.row i (by omega)
    rw [splineSystem_diag] at row
    exact row

variable [LinearOrder K] [IsStrictOrderedRing K]

theorem splineSystem_dominant (enough : 2 ≤ nWp) (positive : 0 < durationS) (y : Nat → K) (i : Nat) :
    (splineSystem nWp durationS y).lower i * (1 / 3) + 3 * (splineSystem nWp durationS y).upper i <
      (splineSystem nWp durationS y).diag i := by
  have length := segH_pos enough positive 0
  rw [splineSystem_diag]
  dsimp only [splineSystem]
  rw [segH_eq] at length
  rw [segH_eq, segH_eq]
  linarith

theorem sweep_pivot (enough : 2 ≤ nWp) (positive : 0 < durationS) (y : Nat → K) {i : Nat} (interior : 1 ≤ i)
    (inside : i < nWp - 1) :
    let row := sweep nWp durationS y i
    3 * segH nWp durationS i < row.l ∧ 0 < row.mu ∧ row.mu < 1 / 3 := by
  obtain ⟨i, rfl⟩ : ∃ k, i = k + 1 := ⟨i - 1, by omega⟩
  apply (sweep_eliminates nWp durationS y).pivot_lt _ _ three_pos _ inside
  · exact fun i => (segH_pos enough positive (i - 1)).le
  · exact segH_pos enough positive
  · exact splineSystem_dominant enough positive y

theorem NaturalRows.unique (enough : 2 ≤ nWp) (positive : 0 < durationS) {other : Nat → K}
    (natural : NaturalRows nWp durationS y M) (rows : NaturalRows nWp durationS y other) {i : Nat} (inside : i < nWp) :
    M i = other i := by
  have length := segH_pos enough positive 0
  apply (naturalRows_iff.mp natural).unique (naturalRows_iff.mp rows) _ _ _ length (by omega)
  · exact fun i => (segH_pos enough positive (i - 1)).le
  · exact fun i => (segH_pos enough positive i).le
  · intro i
    rw [splineSystem_diag]
    dsimp only [splineSystem]
    simp only [segH_eq] at length ⊢
    linarith

/-- The diagonal outweighs its neighbours in every row, so the ratios stay below one and no pivot
of the sweep comes near zero. `M` is the one solution of the rows. -/
theorem thomas_solves {nWp : Nat} (enough : 2 ≤ nWp) {durationS : K} (positive : 0 < durationS) (y : Nat → K) :
    (∀ i, 1 ≤ i → i < nWp - 1 →
      let row := sweep nWp durationS y i
      3 * segH nWp durationS i < row.l ∧ 0 < row.mu ∧ row.mu < 1 / 3) ∧
    NaturalRows nWp durationS y (secondDeriv nWp durationS y) ∧
    ∀ M, NaturalRows nWp durationS y M → ∀ i, i < nWp → M i = secondDeriv nWp durationS y i := by
  have solves := naturalRows_iff.mpr (secondDeriv_solves enough positive y)
  refine ⟨?_, solves, ?_⟩
  · intro i interior inside
    exact sweep_pivot enough positive y interior inside
  · intro M rows i inside
    exact rows.unique enough positive solves inside

/-- Squares at unit knots: the rows `4 * M 1 + M 2 = 6` and `M 1 + 4 * M 2 = 6` give `6 / 5` twice. -/
theorem thomas_solves_squares :
    let y : Nat → ℚ := fun i => i * i
    3 * segH 4 (3 : ℚ) 2 < (sweep 4 3 y 2).l ∧ secondDeriv 4 3 y 1 = 6 / 5 ∧ secondDeriv 4 3 y 2 = 6 / 5 := by
  intro y
  obtain ⟨pivots, -, unique⟩ := thomas_solves (by decide : 2 ≤ 4) (by norm_num : (0 : ℚ) < 3) y
  have rows : NaturalRows 4 (3 : ℚ) y fun i => if i = 1 ∨ i = 2 then 6 / 5 else 0 := by
    refine ⟨by norm_num, by norm_num, ?_⟩
    intro i interior inside
    obtain rfl | rfl : i = 1 ∨ i = 2 := by omega
    all_goals norm_num [segH_eq, alpha, y]
  refine ⟨(pivots 2 (by decide) (by decide)).1, ?_, ?_⟩
  · rw [← unique _ rows 1 (by decide)]
    rfl
  · rw [← unique _ rows 2 (by decide)]
    rfl

end RoboticsRt

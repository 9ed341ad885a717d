import RoboticsRt.Proofs.PairOrder
import Mathlib.Tactic.Linarith
import Mathlib.Tactic.NormNum

/-! What work item `k` of the self-check kernels decodes, against the pair the host loops
visit with counter `k`. The kernels count along a triangle that grows by one entry a row,
the host loops along one that shrinks: only the first entries of the first rows coincide. -/

namespace RoboticsRt

def hostPair (n k : Nat) : Option (Nat × Nat) := (hostPairs n)[k]?.map fun pair => (pair.1.val, pair.2.val)

theorem kernelRow_spec (k : Nat) :
    kernelRow k * (kernelRow k + 1) ≤ 2 * k ∧ 2 * k < (kernelRow k + 1) * (kernelRow k + 2) := by
  have root := Nat.sqrt_le' (8 * k + 1)
  have above := Nat.lt_succ_sqrt' (8 * k + 1)
  have positive : 1 ≤ Nat.sqrt (8 * k + 1) := Nat.sqrt_pos.mpr (by omega)
  have low : 2 * kernelRow k + 1 ≤ Nat.sqrt (8 * k + 1) := by unfold kernelRow; omega
  have high : Nat.sqrt (8 * k + 1) + 1 ≤ 2 * kernelRow k + 3 := by unfold kernelRow; omega
  have square : (2 * kernelRow k + 1) ^ 2 ≤ 8 * k + 1 := (Nat.pow_le_pow_left low 2).trans root
  have next : 8 * k + 1 < (2 * kernelRow k + 3) ^ 2 := above.trans_le (Nat.pow_le_pow_left high 2)
  constructor <;> nlinarith

theorem kernelRow_unique {k r : Nat} (low : r * (r + 1) ≤ 2 * k) (high : 2 * k < (r + 1) * (r + 2)) :
    kernelRow k = r := by
  obtain ⟨start, next⟩ := kernelRow_spec k
  rcases Nat.lt_trichotomy (kernelRow k) r with below | same | above
  · have rows : (kernelRow k + 1) * (kernelRow k + 2) ≤ r * (r + 1) := Nat.mul_le_mul below (by omega)
    omega
  · exact same
  · have rows : (r + 1) * (r + 2) ≤ kernelRow k * (kernelRow k + 1) := Nat.mul_le_mul above (by omega)
    omega

theorem kernelCol_spec (k : Nat) :
    2 * kernelCol k + kernelRow k * (kernelRow k + 1) = 2 * k + 2 * kernelRow k + 2 := by
  obtain ⟨start, _⟩ := kernelRow_spec k
  have even : 2 * (kernelRow k * (kernelRow k + 1) / 2) = kernelRow k * (kernelRow k + 1) :=
    Nat.mul_div_cancel' (Nat.even_mul_succ_self _).two_dvd
  unfold kernelCol
  omega

theorem exists_last_col {n : Nat} (several : 2 ≤ n) : ∃ k < n * (n - 1) / 2, kernelCol k + 1 = 2 * (n - 1) := by
  obtain ⟨r, rfl⟩ : ∃ r, n = r + 2 := ⟨n - 2, by omega⟩
  have even : 2 * ((r + 2) * (r + 2 - 1) / 2) = (r + 2) * (r + 2 - 1) := by
    have consecutive := Nat.even_mul_succ_self (r + 1)
    rw [Nat.mul_comm (r + 2)]
    exact Nat.mul_div_cancel' consecutive.two_dvd
  have pairs : (r + 2) * (r + 2 - 1) = r * (r + 1) + 2 * (r + 1) := by
    have rows : r + 2 - 1 = r + 1 := rfl
    rw [rows]
    ring
  obtain ⟨k, number⟩ : ∃ k, 2 * k = r * (r + 1) + 2 * r := by
    obtain ⟨half, twice⟩ := (Nat.even_mul_succ_self r).two_dvd
    exact ⟨half + r, by linarith⟩
  have row : kernelRow k = r := kernelRow_unique (by omega) (by linarith)
  have column := kernelCol_spec k
  rw [row] at column
  exact ⟨k, by omega, by omega⟩

theorem hostPairs_length (n : Nat) : (hostPairs n).length = n * (n - 1) / 2 := by
  have column := pairsOf_length (List.finRange n)
  rwa [pairsOf, List.length_map, List.length_finRange] at column

theorem hostPairs_number {n k : Nat} {pair : Fin n × Fin n} (found : (hostPairs n)[k]? = some pair) :
    2 * k + (pair.1.val + 1) * (pair.1.val + 2) = 2 * (pair.1.val * n + pair.2.val) ∧ pair.1 < pair.2 := by
  induction n generalizing k with
  | zero => exact pair.1.elim0
  | succ n ih =>
    rw [hostPairs_succ] at found
    by_cases first : k < n
    · have entry : ((List.finRange n).map fun j => ((0 : Fin (n + 1)), j.succ))[k]? = some (0, (⟨k, first⟩ : Fin n).succ) := by
        simp [first]
      rw [List.getElem?_append_left (by simpa using first), entry] at found
      cases found
      refine ⟨?_, Fin.succ_pos _⟩
      simp only [Fin.val_zero, Fin.val_succ]
      omega
    · rw [List.getElem?_append_right (by simpa using first), List.getElem?_map, Option.map_eq_some_iff] at found
      obtain ⟨⟨i, j⟩, earlier, rfl⟩ := found
      rw [List.length_map, List.length_finRange] at earlier
      obtain ⟨number, ordered⟩ := ih earlier
      refine ⟨?_, Fin.succ_lt_succ_iff.mpr ordered⟩
      obtain ⟨d, rfl⟩ := Nat.exists_eq_add_of_le (not_lt.mp first)
      rw [Nat.add_sub_cancel_left] at number
      simp only [Fin.val_succ] at number ⊢
      linarith

/-- The kernel's triangle grows by a row with each `i`, the host's shrinks, and only the very
first pair has the same number in both. -/
theorem kernelPair_host_iff {n k : Nat} (inside : k < n * (n - 1) / 2) :
    hostPair n k = some (kernelRow k, kernelCol k) ↔ k = 0 := by
  constructor
  · intro same
    obtain ⟨⟨i, j⟩, found, decoded⟩ := Option.map_eq_some_iff.mp same
    obtain ⟨row, col⟩ := Prod.mk.inj decoded
    dsimp only at row col
    obtain ⟨number, ordered⟩ := hostPairs_number found
    dsimp only at number ordered
    have column := kernelCol_spec k
    rw [← row, ← col] at column
    -- the two counters differ by a multiple of the row
    have rows : i.val * (i.val + 1) = i.val * n := by linarith
    rcases Nat.eq_zero_or_pos i.val with top | lower
    · have next := (kernelRow_spec k).2
      rw [← row, top] at next
      omega
    · have last : i.val + 1 = n := Nat.eq_of_mul_eq_mul_left lower rows
      have below : i.val < j.val := ordered
      omega
  · rintro rfl
    have decoded : kernelRow 0 = 0 ∧ kernelCol 0 = 1 := by decide +kernel
    obtain ⟨m, rfl⟩ : ∃ m, n = m + 2 := by
      refine ⟨n - 2, ?_⟩
      match n with
      | 0 => cases inside
      | 1 => cases inside
      | m + 2 => rfl
    rw [decoded.1, decoded.2, hostPair, hostPairs_succ]
    simp [List.finRange_succ]

/-! What the kernel comment promises. -/

def SamePairs (n : Nat) : Prop := ∀ k < n * (n - 1) / 2, hostPair n k = some (kernelRow k, kernelCol k)

/-- Every work item reads two registered boxes, `i < j`. -/
def ReadsRegistered (n : Nat) : Prop := ∀ k < n * (n - 1) / 2, kernelRow k < kernelCol k ∧ kernelCol k < n

def CoversOnce (n : Nat) : Prop :=
  ∀ i j, i < j → j < n → ∃! k, k < n * (n - 1) / 2 ∧ kernelRow k = i ∧ kernelCol k = j

theorem two_pairs : SamePairs 2 ∧ ReadsRegistered 2 ∧ CoversOnce 2 := by
  have decoded : kernelRow 0 = 0 ∧ kernelCol 0 = 1 := by decide +kernel
  refine ⟨fun k inside => ?_, fun k inside => ?_, fun i j ordered within => ?_⟩
  · exact (kernelPair_host_iff inside).mpr (by omega)
  · obtain rfl : k = 0 := by omega
    omega
  · obtain ⟨rfl, rfl⟩ : i = 0 ∧ j = 1 := by omega
    exact ⟨0, ⟨by omega, decoded⟩, fun k found => by omega⟩

theorem last_item_outside {n : Nat} (many : 3 ≤ n) : ¬ ReadsRegistered n := by
  intro registered
  obtain ⟨k, inside, last⟩ := exists_last_col (Nat.le_of_succ_le many)
  have within := (registered k inside).2
  omega

/-- The kernel decodes the rows of a triangle that is a pair longer in each row, where the host's
get shorter, and moves the column past the diagonal. The columns of row `i` go up to `2 * i + 1`,
which is past the last box for three objects already. -/
theorem pair_index_iff {n : Nat} (several : 2 ≤ n) :
    (∀ k < n * (n - 1) / 2, hostPair n k = some (kernelRow k, kernelCol k) ↔ k = 0) ∧
      (SamePairs n ↔ n = 2) ∧ (ReadsRegistered n ↔ n = 2) ∧ (CoversOnce n ↔ n = 2) := by
  have decoded : kernelRow 0 = 0 ∧ kernelCol 0 = 1 := by decide +kernel
  have more (large : ¬ n = 2) : 1 < n * (n - 1) / 2 := by
    have product : 3 * 2 ≤ n * (n - 1) := Nat.mul_le_mul (by omega) (by omega)
    omega
  refine ⟨fun k inside => kernelPair_host_iff inside, ⟨fun same => ?_, ?_⟩, ⟨fun registered => ?_, ?_⟩,
    ⟨fun covers => ?_, ?_⟩⟩
  · by_contra large
    have second := (kernelPair_host_iff (more large)).mp (same 1 (more large))
    cases second
  · rintro rfl
    exact two_pairs.1
  · by_contra large
    exact last_item_outside (by omega) registered
  · rintro rfl
    exact two_pairs.2.1
  · by_contra large
    -- row 0 of the kernel's triangle ends after the pair of the first two objects
    obtain ⟨k, ⟨_, row, col⟩, _⟩ := covers 0 2 (by omega) (by omega)
    have next := (kernelRow_spec k).2
    rw [row] at next
    obtain rfl : k = 0 := by omega
    omega
  · rintro rfl
    exact two_pairs.2.2

/-- Three objects: work item 1 is decoded as the pair of the last two, and the host's pair
number 1 is the first and the last; work item 2 reads a fourth box. -/
theorem three_objects_diverge : hostPair 3 1 = some (0, 2) ∧ (kernelRow 1, kernelCol 1) = (1, 2) ∧
    (kernelRow 2, kernelCol 2) = (1, 3) := by decide +kernel

theorem two_objects_same : SamePairs 2 := (pair_index_iff le_rfl).2.1.mpr rfl

end RoboticsRt

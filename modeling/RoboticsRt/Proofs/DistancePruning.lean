import RoboticsRt.Library.BranchAndBound
import RoboticsRt.Proofs.CrossOverlap
import Mathlib.Analysis.InnerProductSpace.PiL2

/-! Distance queries against other objects in exact arithmetic. The gap between two boxes
bounds the distance of what they contain, so skipping pairs by it loses no minimum. -/

namespace RoboticsRt
open BranchAndBound EarlyExit

abbrev Point : Type := EuclideanSpace ℝ (Fin 3)

def AABB.points (box : AABB ℝ) : Set Point :=
  {p | ∀ axis, ![box.minX, box.minY, box.minZ] axis ≤ p axis ∧ p axis ≤ ![box.maxX, box.maxY, box.maxZ] axis}

/-- What the distance kernels compute for two boxes. -/
noncomputable def AABB.distance (a b : AABB ℝ) : ℝ :=
  Real.sqrt ((a.gaps b).1 * (a.gaps b).1 + (a.gaps b).2.1 * (a.gaps b).2.1 + (a.gaps b).2.2 * (a.gaps b).2.2)

theorem gap_le {low1 high1 low2 high2 x y : ℝ} (first : low1 ≤ x ∧ x ≤ high1) (second : low2 ≤ y ∧ y ≤ high2) :
    max 0 (max low1 low2 - min high1 high2) * max 0 (max low1 low2 - min high1 high2) ≤ dist x y ^ 2 := by
  have apart : max low1 low2 - min high1 high2 ≤ |x - y| := by
    calc max low1 low2 - min high1 high2
      _ ≤ max x y - min x y := sub_le_sub (max_le_max first.1 second.1) (min_le_min first.2 second.2)
      _ = |x - y| := max_sub_min_eq_abs' x y
  rw [Real.dist_eq, ← sq]
  exact pow_le_pow_left₀ (le_max_left _ _) (max_le (abs_nonneg _) apart) 2

theorem AABB.distance_le_dist {a b : AABB ℝ} {p q : Point} (first : p ∈ a.points) (second : q ∈ b.points) :
    a.distance b ≤ dist p q := by
  rw [EuclideanSpace.dist_eq, Fin.sum_univ_three]
  exact Real.sqrt_le_sqrt (add_le_add_three (gap_le (first 0) (second 0)) (gap_le (first 1) (second 1))
    (gap_le (first 2) (second 2)))

/-- Objects are sets of points in their boxes, and `exact` is the distance between two of them. -/
structure Solids {Obj : Type} (getAABB : Obj → AABB ℝ) where
  shape : Obj → Set Point
  contained : ∀ obj, shape obj ⊆ (getAABB obj).points
  exact : Obj → Obj → ℝ
  infimum : ∀ a b, IsGLB (Set.image2 dist (shape a) (shape b)) (exact a b)

/-- A callback that keeps the least distance seen and stops only when it is zero. -/
structure KeepsLeast {Obj σ : Type} (exact : Obj → Obj → ℝ) (callback : Obj → Obj → ℝ → σ → (ℝ × σ) × Bool) : Prop where
  lowers : ∀ a b minDist state, (callback a b minDist state).1.1 = min minDist (exact a b)
  stops : ∀ a b minDist state, (callback a b minDist state).2 = true → (callback a b minDist state).1.1 = 0

variable {Obj σ : Type} {getAABB : Obj → AABB ℝ}

theorem Solids.nonneg (solids : Solids getAABB) (a b : Obj) : 0 ≤ solids.exact a b := by
  apply (solids.infimum a b).2
  rintro _ ⟨p, _, q, _, rfl⟩
  exact dist_nonneg

theorem Solids.distance_le (solids : Solids getAABB) (a b : Obj) :
    (getAABB a).distance (getAABB b) ≤ solids.exact a b := by
  apply (solids.infimum a b).2
  rintro _ ⟨p, first, q, second, rfl⟩
  exact AABB.distance_le_dist (solids.contained a first) (solids.contained b second)

theorem KeepsLeast.prunes {ι : Type} {solids : Solids getAABB} {callback : Obj → Obj → ℝ → σ → (ℝ × σ) × Bool}
    (keeps : KeepsLeast solids.exact callback) (pair : ι → Obj × Obj) :
    Prunes (fun i current =>
        if (getAABB (pair i).1).distance (getAABB (pair i).2) < current.1 then
          callback (pair i).1 (pair i).2 current.1 current.2
        else (current, false))
      (fun i => (getAABB (pair i).1).distance (getAABB (pair i).2)) (fun i => solids.exact (pair i).1 (pair i).2) 0 where
  skips _ _ _ skipped := if_neg skipped.not_gt
  lowers _ _ _ visited := by rw [if_pos visited, keeps.lowers]
  stops _ _ _ visited stopped := by
    rw [if_pos visited] at stopped ⊢
    exact keeps.stops _ _ _ _ stopped

theorem mem_crossPairs {n m : Nat} (pair : Fin n × Fin m) : pair ∈ crossPairs n m := by
  simp [crossPairs]

theorem crossPairs_ne_nil {firsts seconds : List Obj} (some_first : firsts ≠ []) (some_second : seconds ≠ []) :
    crossPairs firsts.length seconds.length ≠ [] :=
  List.ne_nil_of_mem (mem_crossPairs (⟨0, List.length_pos_iff.mpr some_first⟩, ⟨0, List.length_pos_iff.mpr some_second⟩))

theorem exists_crossPairs (firsts seconds : List Obj) (related : Obj → Obj → Prop) :
    (∃ pair ∈ crossPairs firsts.length seconds.length, related (firsts.get pair.1) (seconds.get pair.2)) ↔
      ∃ a ∈ firsts, ∃ b ∈ seconds, related a b := by
  constructor
  · intro ⟨pair, _, holds⟩
    exact ⟨_, List.get_mem firsts pair.1, _, List.get_mem seconds pair.2, holds⟩
  · intro ⟨a, first, b, second, holds⟩
    obtain ⟨i, rfl⟩ := List.get_of_mem first
    obtain ⟨j, rfl⟩ := List.get_of_mem second
    exact ⟨(i, j), mem_crossPairs _, holds⟩

namespace CoalGPUCollisionManager
variable (manager : CoalGPUCollisionManager Obj ℝ) (fresh other : Fresh ℝ) {callback : Obj → Obj → ℝ → σ → (ℝ × σ) × Bool}

theorem distanceOther_eq_search {others : List Obj} (some_first : manager.objects ≠ []) (some_second : others ≠ [])
    (largest : ℝ) (state : σ) :
    manager.distanceOther getAABB id fresh other id Real.sqrt largest (.other others) callback state =
      some (manager, search (fun pair current =>
        if (getAABB (manager.objects.get pair.1)).distance (getAABB (others.get pair.2)) < current.1 then
          callback (manager.objects.get pair.1) (others.get pair.2) current.1 current.2
        else (current, false)) (crossPairs manager.objects.length others.length) (largest, state)) := by
  obtain ⟨buf1, uploaded1, boxes1⟩ := uploadAABBs_boxes getAABB id some_first fresh.aabbs
  obtain ⟨buf2, uploaded2, boxes2⟩ := uploadAABBs_boxes getAABB id some_second other.aabbs
  have positive : 0 < manager.objects.length * others.length * sizeofFloat :=
    Nat.mul_pos (Nat.mul_pos (List.length_pos_iff.mpr some_first) (List.length_pos_iff.mpr some_second)) (by decide)
  have gap (pair : Fin manager.objects.length × Fin others.length) :
      aabbDistanceCross Real.sqrt buf1.contents buf2.contents others.length (pair.1 * others.length + pair.2) =
        (getAABB (manager.objects.get pair.1)).distance (getAABB (others.get pair.2)) := by
    obtain ⟨_, row, column⟩ := crossIndex_spec pair
    rw [aabbDistanceCross, row, column, boxes1, boxes2]
    rfl
  have inside (pair : Fin manager.objects.length × Fin others.length) := (crossIndex_spec pair).1
  simp only [distanceOther, List.isEmpty_iff, some_first, some_second, if_false, uploaded1, uploaded2,
    allocBuffer_some positive, Option.bind_eq_bind, Option.bind_some, Option.pure_def, Block.write_inside _ _ (inside _),
    gap, id]

theorem distanceObject_eq_search (some_object : manager.objects ≠ []) (obj : Obj) (largest : ℝ) (state : σ) :
    manager.distanceObject getAABB id fresh id Real.sqrt largest obj callback state =
      some (search (fun (i : Fin manager.objects.length) current =>
        if (getAABB obj).distance (getAABB (manager.objects.get i)) < current.1 then
          callback obj (manager.objects.get i) current.1 current.2
        else (current, false)) (List.finRange manager.objects.length) (largest, state)) := by
  obtain ⟨buf, uploaded, boxes⟩ := uploadAABBs_boxes getAABB id some_object fresh.aabbs
  have positive : 0 < manager.objects.length * sizeofFloat :=
    Nat.mul_pos (List.length_pos_iff.mpr some_object) (by decide)
  have gap (i : Fin manager.objects.length) :
      aabbDistanceOneVsAll Real.sqrt buf.contents (queryBox getAABB id obj) i =
        (getAABB obj).distance (getAABB (manager.objects.get i)) := by
    rw [aabbDistanceOneVsAll, boxes]
    rfl
  simp only [distanceObject, List.isEmpty_iff, some_object, if_false, uploaded, allocBuffer_some positive,
    Option.bind_eq_bind, Option.bind_some, Option.pure_def, Block.write_inside _ _ (Fin.isLt _), gap, id]

theorem pruning_keeps_minimum (solids : Solids getAABB) (keeps : KeepsLeast solids.exact callback) {largest : ℝ}
    (below : ∀ a b, solids.exact a b < largest) {others : List Obj} (some_first : manager.objects ≠ [])
    (some_second : others ≠ []) (obj : Obj) (state : σ) :
    ((∀ aabbs1 aabbs2 m k p q, p ∈ (boxAt aabbs1 (k / m)).points → q ∈ (boxAt aabbs2 (k % m)).points →
          aabbDistanceCross Real.sqrt aabbs1 aabbs2 m k ≤ dist p q) ∧
      ∃ minDist next, manager.distanceOther getAABB id fresh other id Real.sqrt largest (.other others) callback state =
          some (manager, minDist, next) ∧
        IsLeast {d | ∃ a ∈ manager.objects, ∃ b ∈ others, d = solids.exact a b} minDist) ∧
    (∀ aabbs query i p q, p ∈ query.points → q ∈ (boxAt aabbs i).points →
          aabbDistanceOneVsAll Real.sqrt aabbs query i ≤ dist p q) ∧
      ∃ minDist next, manager.distanceObject getAABB id fresh id Real.sqrt largest obj callback state =
          some (minDist, next) ∧
        IsLeast {d | ∃ b ∈ manager.objects, d = solids.exact obj b} minDist := by
  refine ⟨⟨?_, ?_⟩, ?_, ?_⟩
  · exact fun aabbs1 aabbs2 m k p q first second => AABB.distance_le_dist first second
  · have prunes := keeps.prunes fun pair : Fin manager.objects.length × Fin others.length =>
      (manager.objects.get pair.1, others.get pair.2)
    have least := prunes.search_least_exact largest state
      (fun _ _ => solids.distance_le _ _) (fun _ _ => solids.nonneg _ _) (crossPairs_ne_nil some_first some_second)
      fun _ _ => below _ _
    have among (d : ℝ) := exists_crossPairs manager.objects others fun a b => d = solids.exact a b
    refine ⟨_, _, distanceOther_eq_search manager fresh other some_first some_second largest state, ?_⟩
    simp only [← among]
    exact least
  · exact fun aabbs query i p q first second => AABB.distance_le_dist first second
  · have prunes := keeps.prunes fun i : Fin manager.objects.length => (obj, manager.objects.get i)
    have some_index : List.finRange manager.objects.length ≠ [] := by simpa using some_first
    have least := prunes.search_least_exact largest state
      (fun _ _ => solids.distance_le _ _) (fun _ _ => solids.nonneg _ _) some_index fun _ _ => below _ _
    refine ⟨_, _, distanceObject_eq_search manager fresh some_first obj largest state, ?_⟩
    simpa only [List.mem_finRange, true_and, List.exists_mem_iff_get] using least

end CoalGPUCollisionManager

/-! Points one above the other, ten at most. -/

noncomputable def height (n : ℕ) : ℝ := (n % 10 : ℕ)

noncomputable def position (n : ℕ) : Point := EuclideanSpace.single (Fin.last _) (height n)

noncomputable def pointBox (n : ℕ) : AABB ℝ := ⟨0, 0, height n, 0, 0, height n⟩

noncomputable def pointsAbove : Solids pointBox where
  shape n := {position n}
  contained n p same := by
    rw [Set.mem_singleton_iff.mp same]
    intro axis
    fin_cases axis <;> simp [position, pointBox, Fin.last]
  exact a b := dist (position a) (position b)
  infimum a b := by
    rw [Set.image2_singleton]
    exact isGLB_singleton

theorem pointsAbove_exact (a b : ℕ) : pointsAbove.exact a b = |height a - height b| := by
  simp [pointsAbove, position, Real.dist_eq]

theorem pointBox_distance (a b : ℕ) : (pointBox a).distance (pointBox b) = |height a - height b| := by
  simp [AABB.distance, AABB.gaps, pointBox, max_sub_min_eq_abs']
  exact Real.sqrt_mul_self_eq_abs _

noncomputable def noteLeast (a b : ℕ) (minDist : ℝ) (calls : List (ℕ × ℕ)) : (ℝ × List (ℕ × ℕ)) × Bool :=
  ((min minDist (pointsAbove.exact a b), calls ++ [(a, b)]), decide (min minDist (pointsAbove.exact a b) = 0))

/-- Of six pairs the second, third and fourth are further apart than the first, and the last one comes
after the contact. -/
theorem contact_found : ∃ (manager : CoalGPUCollisionManager ℕ ℝ) (fresh : Fresh ℝ), manager.objects = [0, 5] ∧
    manager.distanceOther pointBox id fresh fresh id Real.sqrt 10 (.other [1, 5, 9]) noteLeast [] =
      some (manager, 0, [(0, 1), (5, 5)]) ∧
    IsLeast {d | ∃ a ∈ manager.objects, ∃ b ∈ [1, 5, 9], d = pointsAbove.exact a b} 0 := by
  have blank : Fresh ℝ := ⟨fun _ => 0, fun _ => 0, fun _ => 0⟩
  let manager := ((CoalGPUCollisionManager.create false blank).registerObject 0).registerObject 5
  have keeps : KeepsLeast pointsAbove.exact noteLeast :=
    ⟨fun _ _ _ _ => rfl, fun _ _ _ _ stopped => of_decide_eq_true stopped⟩
  have below (a b : ℕ) : pointsAbove.exact a b < 10 := by
    have high (n : ℕ) : 0 ≤ height n ∧ height n < 10 :=
      ⟨Nat.cast_nonneg _, by unfold height; exact_mod_cast Nat.mod_lt n (by decide)⟩
    rw [pointsAbove_exact, abs_lt]
    constructor <;> linarith [high a, high b]
  have some_first : manager.objects ≠ [] := List.cons_ne_nil _ _
  have some_second : [1, 5, 9] ≠ [] := List.cons_ne_nil _ _
  have pairs : crossPairs 2 3 = [(0, 0), (0, 1), (0, 2), (1, 0), (1, 1), (1, 2)] := by decide
  have calls : manager.distanceOther pointBox id blank blank id Real.sqrt 10 (.other [1, 5, 9]) noteLeast [] =
      some (manager, 0, [(0, 1), (5, 5)]) := by
    rw [CoalGPUCollisionManager.distanceOther_eq_search _ _ _ some_first some_second]
    change some (manager, search _ (crossPairs 2 3) _) = _
    simp only [pairs, pointBox_distance]
    have apart : ¬|(5 : ℝ) - 1| < 1 := by norm_num [abs_of_pos]
    simp [manager, CoalGPUCollisionManager.registerObject, CoalGPUCollisionManager.create, search, noteLeast,
      pointsAbove_exact, height, apart]
  obtain ⟨minDist, next, found, least⟩ := (CoalGPUCollisionManager.pruning_keeps_minimum manager blank blank pointsAbove
    keeps below some_first some_second 0 []).1.2
  rw [calls] at found
  obtain rfl : 0 = minDist := by injection found with same; exact (Prod.mk.inj (Prod.mk.inj same).2).1
  exact ⟨manager, blank, rfl, calls, least⟩

end RoboticsRt

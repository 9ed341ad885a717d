import RoboticsRt.Proofs.BroadPhase
import Mathlib.Data.List.ProdSigma

/-! Queries of a manager against the objects of another one, or against a single object.
Both are a search among the pairs whose narrowed boxes overlap. -/

namespace RoboticsRt
open EarlyExit

variable {Obj α β σ : Type}

theorem crossIndex_spec {n m : Nat} (pair : Fin n × Fin m) :
    pair.1 * m + pair.2 < n * m ∧ (pair.1 * m + pair.2) / m = pair.1 ∧ (pair.1 * m + pair.2) % m = pair.2 := by
  have column := pair.2.isLt
  refine ⟨?_, ?_, ?_⟩
  · calc pair.1 * m + pair.2
      _ < (pair.1 + 1) * m := by rw [Nat.succ_mul]; omega
      _ ≤ n * m := Nat.mul_le_mul_right m pair.1.isLt
  · rw [Nat.mul_comm, Nat.mul_add_div (by omega), Nat.div_eq_of_lt column, Nat.add_zero]
  · rw [Nat.mul_comm, Nat.mul_add_mod, Nat.mod_eq_of_lt column]

theorem Block.write_inside {A : Type} (block : Block A) {count k : Nat} (source : Nat → A) (inside : k < count) :
    (block.write count source).contents k = source k := if_pos inside

namespace CoalGPUCollisionManager

section Kernels
variable [LinearOrder β]

end Kernels

section Upload
variable [Zero β] (getAABB : Obj → AABB α) (toFloat : α → β)

theorem uploadAABBs_boxes {objs : List Obj} (nonempty : objs ≠ []) (contents : Nat → β) :
    ∃ buf, uploadAABBs getAABB toFloat objs contents = some buf ∧
      ∀ i : Fin objs.length, boxAt buf.contents i = (getAABB (objs.get i)).map toFloat := by
  have positive : 0 < objs.length * 6 * sizeofFloat := by
    have count := List.length_pos_iff.mpr nonempty
    unfold sizeofFloat
    omega
  refine ⟨_, by rw [uploadAABBs, allocBuffer_some positive]; rfl, fun i => ?_⟩
  have entry (c : Nat) (small : c < 6) : i * 6 + c < objs.length * 6 ∧ (i * 6 + c) / 6 = i ∧ (i * 6 + c) % 6 = c := by
    have inside := i.isLt
    omega
  have here : objs[(i : Nat)]? = some (objs.get i) := List.getElem?_eq_getElem i.isLt
  simp only [boxAt, Block.write, extractAABBs, entry 0 (by omega), entry 1 (by omega), entry 2 (by omega),
    entry 3 (by omega), entry 4 (by omega), entry 5 (by omega), here, if_true]
  rfl

end Upload

variable [LinearOrder β] (getAABB : Obj → AABB α) (toFloat : α → β)

variable [Zero β] (manager : CoalGPUCollisionManager Obj β) (fresh other : Fresh β)

end CoalGPUCollisionManager
end RoboticsRt

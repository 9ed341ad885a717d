import RoboticsRt.RobotScene
import RoboticsRt.Proofs.BroadPhase

/-! Verdicts over any stream of pairs. A broad phase may report pairs in any order and
orientation, repeat them and add objects the scene does not know; all that counts is that
no overlapping pair is missing. -/

namespace RoboticsRt
open EarlyExit

structure ObjectPair (Obj : Type) where
  o1 : Obj
  o2 : Obj
  different : o1 ≠ o2

variable {Obj α : Type} [DecidableEq Obj] [LinearOrder α]

/-- The pairs go to the callback one by one until it asks to stop. -/
def delivering (pairs : List (ObjectPair Obj)) : BroadPhase Obj :=
  fun callback => search (fun pair => callback pair.o1 pair.o2) pairs

def Delivers (getAABB : Obj → AABB α) (objects : List Obj) (pairs : List (ObjectPair Obj)) : Prop :=
  ∀ a ∈ objects, ∀ b ∈ objects, a ≠ b → (getAABB a).overlap (getAABB b) = true →
    ∃ pair ∈ pairs, (pair.o1 = a ∧ pair.o2 = b) ∨ (pair.o1 = b ∧ pair.o2 = a)

omit [DecidableEq Obj] in
theorem delivering_eq_offering (pairs : List (ObjectPair Obj)) :
    delivering pairs = offering (pairs.map fun pair => (pair.o1, pair.o2)) := by
  funext callback collided
  unfold delivering offering
  induction pairs generalizing collided with
  | nil => rfl
  | cons pair rest ih => simp only [List.map_cons, search, ih]

namespace CollisionScene
variable (scene : CollisionScene Obj) (narrow : NarrowPhase Obj)

theorem verdict_any_order (getAABB : Obj → AABB α)
    (touching : ∀ a b, narrow.contact a b = true → (getAABB a).overlap (getAABB b) = true)
    (pairs : List (ObjectPair Obj)) (delivers : Delivers getAABB scene.ptrs pairs) :
    scene.checkCollisions narrow (delivering pairs) = true ↔ scene.Free narrow := by
  rw [delivering_eq_offering]
  apply scene.complete_verdict narrow getAABB touching
  · intro pair offered
    obtain ⟨delivered, _, rfl⟩ := List.mem_map.mp offered
    exact delivered.different
  · refine scene.distinct.imp_of_mem fun {a b} memberA memberB different overlap => ?_
    obtain ⟨pair, member, ⟨rfl, rfl⟩ | ⟨rfl, rfl⟩⟩ := delivers a memberA b memberB different overlap
    · exact .inl (List.mem_map_of_mem member)
    · exact .inr (List.mem_map_of_mem member)

end CollisionScene

/-! Coal's naive manager looks at all pairs of its objects. -/

def naivePairs (getAABB : Obj → AABB α) (objects : List Obj) : List (Obj × Obj) :=
  (pairsOf objects).filter fun pair => (getAABB pair.1).overlap (getAABB pair.2)

omit [DecidableEq Obj] in
theorem naive_offers (getAABB : Obj → AABB α) {objects : List Obj} (distinct : objects.Nodup) :
    CpuOffers getAABB objects (naivePairs getAABB objects) where
  complete := pairwise_iff_pairsOf.mpr fun pair member overlap => .inl (List.mem_filter.mpr ⟨member, overlap⟩)
  sound pair offered := by
    obtain ⟨member, overlap⟩ := List.mem_filter.mp offered
    obtain ⟨first, second⟩ := mem_of_mem_pairsOf member
    exact ⟨first, second, pairwise_iff_pairsOf.mp distinct pair member, overlap⟩

def naiveManager (Obj α : Type) [LinearOrder α] : BroadPhaseManager Obj α where
  State := List Obj
  Setup := List Obj
  create := []
  registerObject state obj _ := state ++ [obj]
  setup := some
  update state _ := state
  collide state boxes callback collided := (state, offering (naivePairs boxes state) callback collided)
  fixed state := state
  fixed_update _ _ := rfl
  fixed_collide _ _ _ _ := rfl
  answer one two boxes callback collided same := by rw [same]

theorem verdict_stray_pairs :
    threeLinks.checkCollisions (touch 0 2)
        (delivering [⟨7, 1, by decide⟩, ⟨1, 0, by decide⟩, ⟨2, 0, by decide⟩, ⟨0, 2, by decide⟩]) = true ↔
      threeLinks.Free (touch 0 2) := by
  refine threeLinks.verdict_any_order (touch 0 2) (boxes 1) ?_ _ ?_
  · exact touch_boxes (by decide) (by decide)
  · unfold Delivers
    decide +kernel

end RoboticsRt

import RoboticsRt.RobotScene
import RoboticsRt.Proofs.BroadPhase

/-! The validity checker answers from the configuration alone. A check moves the objects
whose links the chain poses and leaves the others where they are, so two states that agree
on the others agree altogether once both are moved to the same configuration. -/

namespace RoboticsRt
namespace UrdfRobotModel
variable {K : Type} [CommRing K] (model : UrdfRobotModel K)

theorem fkLink_some {q : List K} {linkName : String} (posed : linkName ∈ model.chain.map Segment3d.name) :
    ∃ i seg, model.chain[i]? = some seg ∧ seg.name = linkName ∧
      model.fkLink q linkName = some (walkChain (model.chain.take (i + 1))
        ((List.range (RoboticsRt.nrOfJoints model.chain)).map fun i => q.getD i 0) 1) := by
  obtain ⟨seg, member, named⟩ := List.mem_map.mp posed
  have found : (model.chain.findIdx? fun seg => seg.name == linkName).isSome := by
    rw [List.findIdx?_isSome, List.any_eq_true]
    exact ⟨seg, member, beq_iff_eq.mpr named⟩
  obtain ⟨i, here⟩ := Option.isSome_iff_exists.mp found
  obtain ⟨inside, matched, _⟩ := List.findIdx?_eq_some_iff_getElem.mp here
  refine ⟨i, model.chain[i], List.getElem?_eq_getElem inside, eq_of_beq matched, ?_⟩
  simp only [fkLink, here]
  rw [jntToCart, if_neg (by simp), if_neg (by omega)]

theorem fkLink_none {q : List K} {linkName : String} (unposed : linkName ∉ model.chain.map Segment3d.name) :
    model.fkLink q linkName = none := by
  have missing : (model.chain.findIdx? fun seg => seg.name == linkName) = none := by
    rw [List.findIdx?_eq_none_iff]
    intro seg member
    exact beq_eq_false_iff_ne.mpr fun named => unposed (named ▸ List.mem_map_of_mem member)
  simp only [fkLink, missing]

end UrdfRobotModel

namespace RobotScene
variable {Bvh K : Type} [CommRing K] {scene : RobotScene Bvh K} {manager : BroadPhaseManager scene.Obj K}
variable (coal : Coal Bvh K)

def Posed (scene : RobotScene Bvh K) (i : scene.Obj) : Prop :=
  (scene.linkObjects.get i).linkName ∈ scene.model.chain.map Segment3d.name

/-- Two states that no sequence of checks can tell apart. -/
structure Alike (one two : scene.State manager) : Prop where
  fixed : manager.fixed one.broadphase = manager.fixed two.broadphase
  shape : ∀ i, (one.objects i).cgeom = (two.objects i).cgeom
  unposed : ∀ i, ¬ scene.Posed i → one.objects i = two.objects i

omit [CommRing K] in
theorem Alike.refl (state : scene.State manager) : Alike state state := ⟨rfl, fun _ => rfl, fun _ _ => rfl⟩

omit [CommRing K] in
theorem Alike.trans {one two three : scene.State manager} (first : Alike one two) (second : Alike two three) :
    Alike one three where
  fixed := first.fixed.trans second.fixed
  shape i := (first.shape i).trans (second.shape i)
  unposed i away := (first.unposed i away).trans (second.unposed i away)

theorem updated_alike (q : List K) (state : scene.State manager) :
    Alike (updateCollisionTransforms coal q state) state where
  fixed := manager.fixed_update _ _
  shape i := by
    dsimp only [updateCollisionTransforms, placed]
    split <;> rfl
  unposed i away := by
    dsimp only [updateCollisionTransforms, placed]
    rw [scene.model.fkLink_none away]

theorem Alike.updated {one two : scene.State manager} (alike : Alike one two) (q : List K) :
    (updateCollisionTransforms coal q one).objects = (updateCollisionTransforms coal q two).objects := by
  funext i
  by_cases posed : scene.Posed i
  · obtain ⟨_, _, _, _, some⟩ := scene.model.fkLink_some (q := q) posed
    dsimp only [updateCollisionTransforms, placed]
    rw [some, alike.shape i]
  · rw [(updated_alike coal q one).unposed i posed, (updated_alike coal q two).unposed i posed, alike.unposed i posed]

omit [CommRing K] in
theorem check_moved (objects : scene.Obj → CollisionObject Bvh K) {one two : manager.State}
    (fixed : manager.fixed one = manager.fixed two) :
    (checkCollisions coal ⟨objects, manager.update one fun i => (objects i).aabb⟩).1 =
      (checkCollisions coal ⟨objects, manager.update two fun i => (objects i).aabb⟩).1 := by
  dsimp only [checkCollisions, CollisionScene.checkCollisions]
  exact congrArg not (manager.answer _ _ _ _ _ fixed)

theorem Alike.verdict {one two : scene.State manager} (alike : Alike one two) (q : List K) :
    (isCollisionFree coal q one).1 = (isCollisionFree coal q two).1 := by
  unfold isCollisionFree
  split
  · rfl
  · have moved (state : scene.State manager) : updateCollisionTransforms coal q state =
        ⟨(updateCollisionTransforms coal q state).objects,
          manager.update state.broadphase fun i => ((updateCollisionTransforms coal q state).objects i).aabb⟩ := rfl
    rw [moved one, moved two, alike.updated coal q]
    exact check_moved coal _ alike.fixed

theorem checked_alike (q : List K) (state : scene.State manager) : Alike (isCollisionFree coal q state).2 state := by
  unfold isCollisionFree
  split
  · exact .refl state
  · have moved := updated_alike coal q state
    exact ⟨(manager.fixed_collide _ _ _ _).trans moved.fixed, moved.shape, moved.unposed⟩

/-- The state after these calls. -/
def afterCalls (calls : List (List K)) (state : scene.State manager) : scene.State manager :=
  calls.foldl (fun state q => (isCollisionFree coal q state).2) state

theorem calls_alike (calls : List (List K)) (state : scene.State manager) :
    Alike (afterCalls coal calls state) state := by
  induction calls generalizing state with
  | nil => exact .refl state
  | cons q rest ih => exact (ih _).trans (checked_alike coal q state)

/-- The objects and the manager's buffers keep what earlier checks left in them. A check writes
anew whatever it reads of it, except for the objects off the chain, and those no check touches. -/
theorem checker_pure (calls : List (List K)) (fresh : scene.State manager) :
    (∀ q, (isCollisionFree coal q (afterCalls coal calls fresh)).1 = (isCollisionFree coal q fresh).1) ∧
      (∀ values, (makeOMPLChecker coal values (afterCalls coal calls fresh)).1 =
        (makeOMPLChecker coal values fresh).1) ∧
      ∀ q, q.length ≠ scene.model.numJoints →
        (isCollisionFree coal q (afterCalls coal calls fresh)).1 = false ∧
          (isCollisionFree coal q (afterCalls coal calls fresh)).2 = afterCalls coal calls fresh := by
  have alike := calls_alike coal calls fresh
  refine ⟨fun q => alike.verdict coal q, fun values => alike.verdict coal _, fun q wrong => ?_⟩
  rw [isCollisionFree, if_pos wrong]
  exact ⟨rfl, rfl⟩

end RobotScene

/-! The GPU manager answers from the boxes, its objects and the memory behind their boxes. -/

namespace CoalGPUCollisionManager
variable {Obj α β : Type} [LinearOrder β]

/-- Device memory behind the boxes of the registered objects. -/
def behind (manager : CoalGPUCollisionManager Obj β) : Nat → β :=
  fun d => manager.bufAabbs.contents (manager.objects.length * 6 + d)

omit [LinearOrder β] in
theorem deviceBox_same {one two : CoalGPUCollisionManager Obj β} (objects : one.objects = two.objects)
    (memory : one.behind = two.behind) (getAABB : Obj → AABB α) (toFloat : α → β) :
    one.deviceBox getAABB toFloat = two.deviceBox getAABB toFloat := by
  funext i
  unfold deviceBox
  rw [objects]
  cases found : two.objects[i]? with
  | some obj => rfl
  | none =>
    have outside : two.objects.length ≤ i := List.getElem?_eq_none_iff.mp found
    have entry (c : Nat) : one.bufAabbs.contents (i * 6 + c) = two.bufAabbs.contents (i * 6 + c) := by
      have here := congrFun memory ((i - two.objects.length) * 6 + c)
      have place : two.objects.length * 6 + ((i - two.objects.length) * 6 + c) = i * 6 + c := by omega
      rwa [behind, behind, objects, place] at here
    have first := entry 0
    rw [Nat.add_zero] at first
    simp only [boxAt, Nat.add_zero, first, entry]

theorem flaggedPairs_same {A : Type} {one two : Nat → UInt8} (pairs : List A) (k : Nat)
    (same : ∀ d < pairs.length, one (k + d) ≠ 0 ↔ two (k + d) ≠ 0) :
    flaggedPairs one pairs k = flaggedPairs two pairs k := by
  unfold flaggedPairs
  congr 1
  apply List.filter_congr
  intro pair member
  obtain ⟨after, before⟩ := List.mem_zipIdx member |>.imp id And.left
  have here := same (pair.2 - k) (by omega)
  rw [Nat.add_sub_cancel' after] at here
  exact decide_eq_decide.mpr here

theorem collide_same {one two : CoalGPUCollisionManager Obj β} (objects : one.objects = two.objects)
    (memory : one.behind = two.behind) (getAABB : Obj → AABB α) (toFloat : α → β) {σ : Type}
    (callback : Obj → Obj → σ → σ × Bool) (state : σ) :
    (one.collide getAABB toFloat callback state).2 = (two.collide getAABB toFloat callback state).2 := by
  by_cases empty : two.objects = []
  · have empty' : one.objects = [] := objects.trans empty
    simp [collide, empty, empty']
  · obtain ⟨first, firstFlags, firstLoop⟩ := one.collide_eq_hostLoop getAABB toFloat callback state (objects ▸ empty)
    obtain ⟨second, secondFlags, secondLoop⟩ := two.collide_eq_hostLoop getAABB toFloat callback state empty
    have flags : one.kernelFlags getAABB toFloat = two.kernelFlags getAABB toFloat := by
      funext k
      rw [kernelFlags, kernelFlags, deviceBox_same objects memory]
    have count : one.numPairs = two.numPairs := by rw [numPairs, numPairs, objects]
    rw [firstLoop, secondLoop, hostLoop_eq_search, hostLoop_eq_search]
    have pairs (manager : CoalGPUCollisionManager Obj β) :
        (hostPairs manager.objects.length).map (fun pair => (manager.objects.get pair.1, manager.objects.get pair.2)) =
          pairsOf manager.objects := rfl
    rw [pairs one, pairs two, objects, flaggedPairs_same]
    intro d inside
    rw [pairsOf_length] at inside
    rw [Nat.zero_add, secondFlags d inside, ← flags]
    exact firstFlags d (count ▸ inside)

theorem collide_fixed (manager : CoalGPUCollisionManager Obj β) (getAABB : Obj → AABB α) (toFloat : α → β) {σ : Type}
    (callback : Obj → Obj → σ → σ × Bool) (state : σ) :
    (manager.collide getAABB toFloat callback state).1.objects = manager.objects ∧
      (manager.collide getAABB toFloat callback state).1.behind = manager.behind := by
  unfold collide
  split
  · exact ⟨rfl, rfl⟩
  · dsimp only
    split <;> exact ⟨rfl, funext fun d => if_neg (Nat.not_lt.mpr (Nat.le_add_right _ d))⟩

/-- Coal's interface to it; `update` does nothing. -/
def manager [Zero β] (toFloat : α → β) (unified : Bool) (unallocated fresh : Fresh β) :
    BroadPhaseManager Obj α where
  State := CoalGPUCollisionManager Obj β
  Setup := List Obj × (Nat → β)
  create := CoalGPUCollisionManager.create unified unallocated
  registerObject state obj _ := state.registerObject obj
  setup state := state.setup fresh
  update state _ := state
  collide state boxes callback collided := state.collide boxes toFloat callback collided
  fixed state := (state.objects, state.behind)
  fixed_update _ _ := rfl
  fixed_collide state boxes callback collided := by
    obtain ⟨objects, memory⟩ := state.collide_fixed boxes toFloat callback collided
    rw [objects, memory]
  answer one two boxes callback collided same :=
    collide_same (congrArg Prod.fst same) (congrArg Prod.snd same) boxes toFloat callback collided

end CoalGPUCollisionManager
end RoboticsRt

import RoboticsRt.Library.EarlyExit
import RoboticsRt.Proofs.PairOrder
import Mathlib.Algebra.Order.Ring.Int
import Mathlib.Tactic.SplitIfs

/-! Collision verdicts over the two broad phases. The callback's verdict is that some
pair it was offered is a hit. A broad phase that offers every overlapping pair decides
whether the configuration is free; the self-check kernel flags pair number `k` by the
boxes of the pair its own formula names, and that is not the pair the host offers. -/

namespace RoboticsRt
open EarlyExit

variable {Obj : Type} [DecidableEq Obj]

/-- A broad phase that hands these pairs to the callback. -/
def offering (offers : List (Obj × Obj)) : BroadPhase Obj :=
  fun callback => search (fun pair => callback pair.1 pair.2) offers

namespace CollisionScene

def excluded (scene : CollisionScene Obj) (a b : LinkObject Obj) : Bool :=
  scene.adjacentPairs.contains (a.linkName ++ ":::" ++ b.linkName) ||
    scene.adjacentPairs.contains (b.linkName ++ ":::" ++ a.linkName)

def collides (scene : CollisionScene Obj) (narrow : NarrowPhase Obj) (a b : LinkObject Obj) : Bool :=
  !scene.excluded a b && narrow.contact a.collisionObj b.collisionObj

def Free (scene : CollisionScene Obj) (narrow : NarrowPhase Obj) : Prop :=
  scene.linkObjects.Pairwise fun a b => scene.collides narrow a b = false

def hit (scene : CollisionScene Obj) (narrow : NarrowPhase Obj) (pair : Obj × Obj) : Bool :=
  (scene.callback.collide narrow pair.1 pair.2 false).2

variable (scene : CollisionScene Obj) (narrow : NarrowPhase Obj)

theorem callback_detects :
    Detects (fun pair : Obj × Obj => scene.callback.collide narrow pair.1 pair.2) (scene.hit narrow) id where
  stops pair collided := by
    unfold hit NarrowPhaseCallback.collide
    split
    · dsimp only
      split_ifs <;> rfl
    · rfl
  records pair collided := by
    unfold hit NarrowPhaseCallback.collide
    split
    · dsimp only
      split_ifs <;> simp
    · simp

theorem findPtr_link {a : LinkObject Obj} (member : a ∈ scene.linkObjects) :
    ∃ idx, scene.callback.findPtr a.collisionObj = some idx ∧ scene.names.getD idx "" = a.linkName := by
  obtain ⟨idx, inside, rfl⟩ := List.getElem_of_mem member
  have bound : idx < scene.ptrs.length := by simpa [ptrs] using inside
  have here : scene.ptrs[idx] = scene.linkObjects[idx].collisionObj := by simp [ptrs]
  refine ⟨idx, ?_, by simp [names, List.getD_eq_getElem?_getD, inside]⟩
  rw [NarrowPhaseCallback.findPtr, List.findIdx?_eq_some_iff_getElem]
  refine ⟨bound, decide_eq_true here, fun j before => ?_⟩
  have apart : scene.ptrs[j] ≠ scene.ptrs[idx] :=
    List.pairwise_iff_getElem.mp scene.distinct j idx (Nat.lt_trans before bound) bound before
  rw [decide_eq_true_eq, ← here]
  exact apart

theorem hit_link {a b : LinkObject Obj} (first : a ∈ scene.linkObjects) (second : b ∈ scene.linkObjects) :
    scene.hit narrow (a.collisionObj, b.collisionObj) = scene.collides narrow a b := by
  obtain ⟨idx1, found1, name1⟩ := scene.findPtr_link first
  obtain ⟨idx2, found2, name2⟩ := scene.findPtr_link second
  have names : scene.callback.names = scene.names := rfl
  unfold hit NarrowPhaseCallback.collide
  rw [found1, found2]
  dsimp only
  rw [names, name1, name2]
  have keys : scene.callback.adjacent = scene.adjacentPairs := rfl
  rw [keys, collides, ← excluded]
  cases scene.excluded a b with
  | true => rfl
  | false => cases narrow.contact a.collisionObj b.collisionObj <;> rfl

theorem check_offering (offers : List (Obj × Obj)) :
    scene.checkCollisions narrow (offering offers) = false ↔ ∃ pair ∈ offers, scene.hit narrow pair = true := by
  have fresh : id false = false := rfl
  rw [← (scene.callback_detects narrow).search_iff offers fresh, checkCollisions, Bool.not_eq_false']
  rfl

end CollisionScene

/-! The CPU broad phase. -/

variable {α : Type} [LinearOrder α]

/-- Offers that contain every overlapping pair of registered objects, in either order,
and nothing else. -/
structure CpuOffers (getAABB : Obj → AABB α) (objects : List Obj) (offers : List (Obj × Obj)) : Prop where
  complete : objects.Pairwise fun a b =>
    (getAABB a).overlap (getAABB b) = true → (a, b) ∈ offers ∨ (b, a) ∈ offers
  sound : ∀ pair ∈ offers, pair.1 ∈ objects ∧ pair.2 ∈ objects ∧ pair.1 ≠ pair.2 ∧
    (getAABB pair.1).overlap (getAABB pair.2) = true

namespace CollisionScene

omit [DecidableEq Obj] in
theorem collides_symm (scene : CollisionScene Obj) (narrow : NarrowPhase Obj) (a b : LinkObject Obj) :
    scene.collides narrow a b = scene.collides narrow b a := by
  rw [collides, collides, excluded, excluded, Bool.or_comm, narrow.symm]

theorem hit_known {scene : CollisionScene Obj} {narrow : NarrowPhase Obj} {pair : Obj × Obj}
    (struck : scene.hit narrow pair = true) :
    ∃ a ∈ scene.linkObjects, ∃ b ∈ scene.linkObjects, pair = (a.collisionObj, b.collisionObj) := by
  have known {obj : Obj} {idx : Nat} (found : scene.callback.findPtr obj = some idx) :
      ∃ a ∈ scene.linkObjects, obj = a.collisionObj := by
    obtain ⟨inside, same, _⟩ := List.findIdx?_eq_some_iff_getElem.mp found
    obtain ⟨a, member, here⟩ := List.mem_map.mp (List.getElem_mem inside)
    exact ⟨a, member, (of_decide_eq_true same).symm.trans here.symm⟩
  unfold hit NarrowPhaseCallback.collide at struck
  split at struck
  next idx1 idx2 found1 found2 =>
    obtain ⟨a, memberA, first⟩ := known found1
    obtain ⟨b, memberB, second⟩ := known found2
    exact ⟨a, memberA, b, memberB, Prod.ext first second⟩
  · cases struck

/-- The order and the orientation of offers do not matter, and neither do repeated ones: the
verdict is a disjunction over the pairs. -/
theorem complete_verdict (scene : CollisionScene Obj) (narrow : NarrowPhase Obj) (getAABB : Obj → AABB α)
    (touching : ∀ a b, narrow.contact a b = true → (getAABB a).overlap (getAABB b) = true)
    {offers : List (Obj × Obj)} (different : ∀ pair ∈ offers, pair.1 ≠ pair.2)
    (complete : scene.ptrs.Pairwise fun a b =>
      (getAABB a).overlap (getAABB b) = true → (a, b) ∈ offers ∨ (b, a) ∈ offers) :
    scene.checkCollisions narrow (offering offers) = true ↔ scene.Free narrow := by
  have collided := scene.check_offering narrow offers
  have free : scene.Free narrow ↔ ¬ ∃ pair ∈ offers, scene.hit narrow pair = true := by
    constructor
    · intro free ⟨pair, offered, struck⟩
      obtain ⟨a, memberA, b, memberB, rfl⟩ := hit_known struck
      have symmetric : Std.Symm fun a b => scene.collides narrow a b = false :=
        ⟨fun a b quiet => (scene.collides_symm narrow b a).trans quiet⟩
      have quiet := free.forall memberA memberB fun same =>
        different _ offered (congrArg LinkObject.collisionObj same)
      rw [scene.hit_link narrow memberA memberB, quiet] at struck
      cases struck
    · intro none
      apply (List.pairwise_map.mp complete).imp_of_mem
      intro a b memberA memberB offered
      by_contra collides
      rw [Bool.not_eq_false] at collides
      have contact : narrow.contact a.collisionObj b.collisionObj = true := (Bool.and_eq_true_iff.mp collides).2
      rcases offered (touching _ _ contact) with forward | backward
      · exact none ⟨_, forward, (scene.hit_link narrow memberA memberB).trans collides⟩
      · have mirrored := (scene.collides_symm narrow b a).trans collides
        exact none ⟨_, backward, (scene.hit_link narrow memberB memberA).trans mirrored⟩
  rw [free, ← collided, Bool.not_eq_false]

theorem cpu_verdict (scene : CollisionScene Obj) (narrow : NarrowPhase Obj) (getAABB : Obj → AABB α)
    (touching : ∀ a b, narrow.contact a b = true → (getAABB a).overlap (getAABB b) = true)
    {offers : List (Obj × Obj)} (cpu : CpuOffers getAABB scene.ptrs offers) :
    scene.checkCollisions narrow (offering offers) = true ↔ scene.Free narrow :=
  scene.complete_verdict narrow getAABB touching (fun pair offered => (cpu.sound pair offered).2.2.1) cpu.complete

end CollisionScene
/-! The GPU broad phase. -/

variable {β : Type} [LinearOrder β]

def AABB.map (f : α → β) (a : AABB α) : AABB β := ⟨f a.minX, f a.minY, f a.minZ, f a.maxX, f a.maxY, f a.maxZ⟩

theorem AABB.overlap_map {f : α → β} (monotone : Monotone f) {a b : AABB α} (overlap : a.overlap b = true) :
    (a.map f).overlap (b.map f) = true := by
  simp only [AABB.overlap, decide_eq_true_eq] at overlap ⊢
  obtain ⟨x1, x2, y1, y2, z1, z2⟩ := overlap
  exact ⟨monotone x1, monotone x2, monotone y1, monotone y2, monotone z1, monotone z2⟩

/-- The pairs of a list whose flag is set, with numbers counted from `k`. -/
def flaggedPairs {A : Type} (overlaps : Nat → UInt8) (pairs : List A) (k : Nat) : List A :=
  ((pairs.zipIdx k).filter fun pair => overlaps pair.2 ≠ 0).map Prod.fst

omit [DecidableEq Obj] in
theorem hostLoop_eq_search {σ : Type} (objects : List Obj) (overlaps : Nat → UInt8)
    (callback : Obj → Obj → σ → σ × Bool) (pairs : List (Fin objects.length × Fin objects.length)) (k : Nat)
    (state : σ) :
    hostLoop objects overlaps callback pairs k state =
      search (fun pair => callback pair.1 pair.2)
        (flaggedPairs overlaps (pairs.map fun pair => (objects.get pair.1, objects.get pair.2)) k) state := by
  induction pairs generalizing k state with
  | nil => rfl
  | cons pair rest ih =>
    obtain ⟨i, j⟩ := pair
    unfold hostLoop
    by_cases flagged : overlaps k ≠ 0
    · have head : flaggedPairs overlaps (((i, j) :: rest).map fun pair => (objects.get pair.1, objects.get pair.2)) k =
          (objects.get i, objects.get j) ::
            flaggedPairs overlaps (rest.map fun pair => (objects.get pair.1, objects.get pair.2)) (k + 1) := by
        simp [flaggedPairs, List.zipIdx_cons, flagged]
      rw [if_pos flagged, head, search]
      simp only [ih]
    · have head : flaggedPairs overlaps (((i, j) :: rest).map fun pair => (objects.get pair.1, objects.get pair.2)) k =
          flaggedPairs overlaps (rest.map fun pair => (objects.get pair.1, objects.get pair.2)) (k + 1) := by
        simp [flaggedPairs, List.zipIdx_cons, Decidable.not_not.mp flagged]
      rw [if_neg flagged, head, ih]

theorem mem_flaggedPairs {A : Type} {overlaps : Nat → UInt8} {pairs : List A} {k : Nat} {pair : A} :
    pair ∈ flaggedPairs overlaps pairs k ↔ ∃ d, pairs[d]? = some pair ∧ overlaps (k + d) ≠ 0 := by
  simp only [flaggedPairs, List.mem_map, List.mem_filter, decide_eq_true_eq, Prod.exists, exists_and_right,
    exists_eq_right]
  constructor
  · intro ⟨index, numbered, flagged⟩
    obtain ⟨after, found⟩ := List.mk_mem_zipIdx_iff_le_and_getElem?_sub.mp numbered
    exact ⟨index - k, found, by rwa [Nat.add_sub_cancel' after]⟩
  · intro ⟨d, found, flagged⟩
    refine ⟨k + d, List.mk_mem_zipIdx_iff_le_and_getElem?_sub.mpr ⟨Nat.le_add_right k d, ?_⟩, flagged⟩
    rw [Nat.add_sub_cancel_left]
    exact found

namespace CoalGPUCollisionManager
variable (manager : CoalGPUCollisionManager Obj β) (getAABB : Obj → AABB α) (toFloat : α → β)

/-- The box the kernel reads for number `i`: of an object, or of the memory behind them. -/
def deviceBox (i : Nat) : AABB β :=
  match manager.objects[i]? with
  | some obj => (getAABB obj).map toFloat
  | none => boxAt manager.bufAabbs.contents i

/-- Pair number `k` is flagged by the two boxes that the kernel's formula names. -/
def kernelFlags (k : Nat) : Bool :=
  (manager.deviceBox getAABB toFloat (kernelRow k)).overlap (manager.deviceBox getAABB toFloat (kernelCol k))

def broadPhase : BroadPhase Obj := fun callback state => (manager.collide getAABB toFloat callback state).2

omit [DecidableEq Obj] [LinearOrder α] [LinearOrder β] in
theorem extractAABBs_outside (objs : List Obj) (out : Nat → β) {index : Nat} (outside : objs.length * 6 ≤ index) :
    extractAABBs getAABB toFloat objs out index = out index := by
  have none : objs[index / 6]? = none := List.getElem?_eq_none (by omega)
  simp [extractAABBs, none]

omit [DecidableEq Obj] [LinearOrder α] [LinearOrder β] in
theorem extractAABBs_inside (objs : List Obj) (out other : Nat → β) {index : Nat} (inside : index < objs.length * 6) :
    extractAABBs getAABB toFloat objs out index = extractAABBs getAABB toFloat objs other index := by
  have some : objs[index / 6]? = some objs[index / 6] := List.getElem?_eq_getElem (by omega)
  simp [extractAABBs, some]

omit [DecidableEq Obj] [LinearOrder α] [LinearOrder β] in
theorem boxAt_extractAABBs (i : Nat) :
    boxAt (extractAABBs getAABB toFloat manager.objects manager.bufAabbs.contents) i =
      manager.deviceBox getAABB toFloat i := by
  have entry (c : Nat) (small : c < 6) : (i * 6 + c) / 6 = i ∧ (i * 6 + c) % 6 = c := by omega
  unfold boxAt deviceBox extractAABBs
  simp only [entry 0 (by omega), entry 1 (by omega), entry 2 (by omega), entry 3 (by omega), entry 4 (by omega),
    entry 5 (by omega)]
  cases manager.objects[i]? with
  | none => rfl
  | some obj => rfl

omit [DecidableEq Obj] [LinearOrder α] in
/-- The unified and the discrete branch move the flags differently, but the loop sees the same
ones. -/
theorem collide_eq_hostLoop {σ : Type} (callback : Obj → Obj → σ → σ × Bool) (state : σ)
    (nonempty : manager.objects ≠ []) :
    ∃ overlaps, (∀ k < manager.numPairs, overlaps k ≠ 0 ↔ manager.kernelFlags getAABB toFloat k = true) ∧
      (manager.collide getAABB toFloat callback state).2 =
        hostLoop manager.objects overlaps callback (hostPairs manager.objects.length) 0 state := by
  have flag (k : Nat) :
      aabbOverlapSelf (extractAABBs getAABB toFloat manager.objects manager.bufAabbs.contents) k ≠ 0 ↔
        manager.kernelFlags getAABB toFloat k = true := by
    rw [aabbOverlapSelf, boxAt_extractAABBs, boxAt_extractAABBs, ← kernelFlags]
    split
    next set => simp [set]
    next unset => simp [unset]
  have filled : manager.objects.isEmpty = false := List.isEmpty_eq_false_iff.mpr nonempty
  unfold collide
  rw [filled, if_neg Bool.false_ne_true]
  dsimp only
  split
  · have written : (manager.bufAabbs.write (manager.objects.length * 6)
          (extractAABBs getAABB toFloat manager.objects manager.bufAabbs.contents)).contents =
        extractAABBs getAABB toFloat manager.objects manager.bufAabbs.contents := by
      funext index
      dsimp only [Block.write]
      split
      · rfl
      next outside => exact (extractAABBs_outside getAABB toFloat _ _ (by omega)).symm
    refine ⟨_, fun k inside => ?_, rfl⟩
    rw [written]
    simp only [Block.write, inside, if_true]
    exact flag k
  · have written : (manager.bufAabbs.write (manager.objects.length * 6)
          (manager.aabbsStaging.write (manager.objects.length * 6)
            (extractAABBs getAABB toFloat manager.objects manager.aabbsStaging.contents)).contents).contents =
        extractAABBs getAABB toFloat manager.objects manager.bufAabbs.contents := by
      funext index
      dsimp only [Block.write]
      split
      next inside => exact extractAABBs_inside getAABB toFloat _ _ _ inside
      next outside => exact (extractAABBs_outside getAABB toFloat _ _ (by omega)).symm
    refine ⟨_, fun k inside => ?_, rfl⟩
    rw [written]
    simp only [Block.write, inside, if_true]
    exact flag k

/-- The manager `setup` leaves behind, and every check after it. -/
structure Ready (objects : List Obj) : Prop where
  registered : manager.objects = objects
  aabbs : manager.bufAabbs.size = objects.length * 6
  overlaps : manager.bufOverlapsSelf.size = objects.length * (objects.length - 1) / 2
  aabbsStaging : manager.aabbsStaging.size = objects.length * 6
  overlapsStaging : manager.overlapsStaging.size = objects.length * (objects.length - 1) / 2

omit [DecidableEq Obj] [LinearOrder β] in
theorem register_all (objects : List Obj) :
    objects.foldl registerObject manager = { manager with objects := manager.objects ++ objects } := by
  induction objects generalizing manager with
  | nil => simp
  | cons obj rest ih => simp [ih, registerObject]

omit [DecidableEq Obj] [LinearOrder β] in
theorem setup_ready [Zero β] (objects : List Obj) (several : 2 ≤ objects.length) (unified : Bool)
    (unallocated fresh : Fresh β) :
    ∃ manager, (objects.foldl registerObject (create unified unallocated)).setup fresh = some manager ∧
      manager.Ready objects ∧ manager.hasUnifiedMemory = unified := by
  rw [register_all, setup_some several]
  exact ⟨_, rfl, ⟨rfl, rfl, rfl, rfl, rfl⟩, rfl⟩

omit [DecidableEq Obj] [LinearOrder α] in
theorem Ready.collide {objects : List Obj} {σ : Type} (ready : manager.Ready objects)
    (callback : Obj → Obj → σ → σ × Bool) (state : σ) :
    (manager.collide getAABB toFloat callback state).1.Ready objects := by
  unfold CoalGPUCollisionManager.collide
  split
  · exact ready
  · dsimp only
    split <;> exact ⟨ready.registered, ready.aabbs, ready.overlaps, ready.aabbsStaging, ready.overlapsStaging⟩

end CoalGPUCollisionManager

namespace CollisionScene
variable (scene : CollisionScene Obj) (narrow : NarrowPhase Obj)

omit [LinearOrder α] in
/-- The flag at a number comes from the boxes the kernel decodes, and the callback gets the pair
the loop counts. A collision is found where the two meet on a colliding pair. -/
theorem gpu_verdict {manager : CoalGPUCollisionManager Obj β} (ready : manager.Ready scene.ptrs)
    (getAABB : Obj → AABB α) (toFloat : α → β) :
    scene.checkCollisions narrow (manager.broadPhase getAABB toFloat) = false ↔
      ∃ k a b, (pairsOf scene.linkObjects)[k]? = some (a, b) ∧ scene.collides narrow a b = true ∧
        manager.kernelFlags getAABB toFloat k = true := by
  by_cases nonempty : manager.objects = []
  · have none : scene.linkObjects = [] := by
      rw [ready.registered] at nonempty
      exact List.map_eq_nil_iff.mp nonempty
    have verdict : scene.checkCollisions narrow (manager.broadPhase getAABB toFloat) = true := by
      simp [checkCollisions, CoalGPUCollisionManager.broadPhase, CoalGPUCollisionManager.collide, nonempty]
    have no_pairs : pairsOf scene.linkObjects = [] := by
      rw [none]
      rfl
    simp [verdict, no_pairs]
  · obtain ⟨overlaps, flags, loop⟩ := manager.collide_eq_hostLoop getAABB toFloat
      (scene.callback.collide narrow) false nonempty
    have pairs : pairsOf manager.objects =
        (pairsOf scene.linkObjects).map (Prod.map LinkObject.collisionObj LinkObject.collisionObj) := by
      rw [ready.registered, ptrs, pairsOf_map]
    have searched : scene.checkCollisions narrow (manager.broadPhase getAABB toFloat) =
        scene.checkCollisions narrow (offering (flaggedPairs overlaps (pairsOf manager.objects) 0)) := by
      rw [checkCollisions, CoalGPUCollisionManager.broadPhase, loop, hostLoop_eq_search]
      rfl
    have count : manager.numPairs = (pairsOf scene.linkObjects).length := by
      rw [CoalGPUCollisionManager.numPairs, ready.registered, ptrs, List.length_map, pairsOf_length]
    rw [searched, check_offering]
    constructor
    · intro ⟨pair, offered, struck⟩
      obtain ⟨k, found, flagged⟩ := mem_flaggedPairs.mp offered
      rw [pairs, List.getElem?_map, Option.map_eq_some_iff] at found
      obtain ⟨⟨a, b⟩, numbered, rfl⟩ := found
      have inside : k < manager.numPairs := count ▸ (List.getElem?_eq_some_iff.mp numbered).1
      have members := mem_of_mem_pairsOf (List.mem_of_getElem? numbered)
      refine ⟨k, a, b, numbered, ?_, ?_⟩
      · rw [← scene.hit_link narrow members.1 members.2]
        exact struck
      · rw [Nat.zero_add] at flagged
        exact (flags k inside).mp flagged
    · intro ⟨k, a, b, numbered, collides, flagged⟩
      have inside : k < manager.numPairs := count ▸ (List.getElem?_eq_some_iff.mp numbered).1
      have members := mem_of_mem_pairsOf (List.mem_of_getElem? numbered)
      refine ⟨(a.collisionObj, b.collisionObj), mem_flaggedPairs.mpr ⟨k, ?_, ?_⟩, ?_⟩
      · rw [pairs, List.getElem?_map, numbered]
        rfl
      · rw [Nat.zero_add]
        exact (flags k inside).mpr flagged
      · rw [scene.hit_link narrow members.1 members.2]
        exact collides

def Agrees (manager : CoalGPUCollisionManager Obj β) (getAABB : Obj → AABB α) (toFloat : α → β)
    (offers : List (Obj × Obj)) : Prop :=
  scene.checkCollisions narrow (manager.broadPhase getAABB toFloat) = scene.checkCollisions narrow (offering offers) ∧
    (scene.checkCollisions narrow (manager.broadPhase getAABB toFloat) = true ↔ scene.Free narrow)

/-- Agreement says nothing about which pair was flagged: a collision found through a flag of
another pair is found all the same. -/
theorem agrees_iff {manager : CoalGPUCollisionManager Obj β} (ready : manager.Ready scene.ptrs)
    (getAABB : Obj → AABB α) (toFloat : α → β)
    (touching : ∀ a b, narrow.contact a b = true → (getAABB a).overlap (getAABB b) = true)
    {offers : List (Obj × Obj)} (cpu : CpuOffers getAABB scene.ptrs offers) :
    scene.Agrees narrow manager getAABB toFloat offers ↔
      scene.Free narrow ∨
        ∃ k a b, (pairsOf scene.linkObjects)[k]? = some (a, b) ∧ scene.collides narrow a b = true ∧
          manager.kernelFlags getAABB toFloat k = true := by
  have found := scene.gpu_verdict narrow ready getAABB toFloat
  have free := scene.cpu_verdict narrow getAABB touching cpu
  rw [← found, Agrees]
  -- a free configuration has no colliding pair to flag
  have quiet (none : scene.Free narrow) :
      scene.checkCollisions narrow (manager.broadPhase getAABB toFloat) = true := by
    by_contra collided
    obtain ⟨k, a, b, numbered, collides, _⟩ := found.mp (Bool.not_eq_true _ ▸ collided)
    have clear := pairwise_iff_pairsOf.mp none (a, b) (List.mem_of_getElem? numbered)
    rw [clear] at collides
    cases collides
  cases verdict : scene.checkCollisions narrow (manager.broadPhase getAABB toFloat) with
  | true =>
    refine ⟨fun agrees => Or.inl (agrees.2.mp rfl), fun reported => ?_⟩
    have none : scene.Free narrow := reported.resolve_right Bool.true_eq_false.mp
    exact ⟨(free.mpr none).symm, iff_of_true rfl none⟩
  | false =>
    have some : ¬ scene.Free narrow := fun none => by
      rw [quiet none] at verdict
      cases verdict
    refine ⟨fun _ => Or.inr rfl, fun _ => ⟨?_, iff_of_false Bool.false_ne_true some⟩⟩
    exact (Bool.eq_false_iff.mpr (mt free.mp some)).symm

theorem two_agree {manager : CoalGPUCollisionManager Obj β} (ready : manager.Ready scene.ptrs)
    (getAABB : Obj → AABB α) {toFloat : α → β} (monotone : Monotone toFloat)
    (touching : ∀ a b, narrow.contact a b = true → (getAABB a).overlap (getAABB b) = true)
    (two : scene.linkObjects.length = 2) :
    scene.checkCollisions narrow (manager.broadPhase getAABB toFloat) = true ↔ scene.Free narrow := by
  have found := scene.gpu_verdict narrow ready getAABB toFloat
  obtain ⟨a, b, links⟩ := List.length_eq_two.mp two
  have objects : manager.objects = [a.collisionObj, b.collisionObj] := by
    rw [ready.registered, ptrs, links]
    rfl
  have numbers : kernelRow 0 = 0 ∧ kernelCol 0 = 1 := by decide +kernel
  have only : pairsOf scene.linkObjects = [(a, b)] := by
    rw [links]
    rfl
  have free : scene.Free narrow ↔ scene.collides narrow a b = false := by simp [Free, links]
  rw [free, ← Bool.not_eq_false, found, ← Bool.not_eq_true, not_iff_not, only]
  constructor
  · intro ⟨k, x, y, numbered, collides, _⟩
    have member := List.mem_of_getElem? numbered
    cases List.mem_singleton.mp member
    exact collides
  · intro collides
    have contact : narrow.contact a.collisionObj b.collisionObj = true := (Bool.and_eq_true_iff.mp collides).2
    refine ⟨0, a, b, rfl, collides, ?_⟩
    simp only [CoalGPUCollisionManager.kernelFlags, CoalGPUCollisionManager.deviceBox, numbers, objects]
    exact AABB.overlap_map monotone (touching _ _ contact)

end CollisionScene
/-! Three links, two of them in contact and the third far away. -/

def threeLinks : CollisionScene Nat where
  linkObjects := [⟨"fr3_link0", 0⟩, ⟨"fr3_link1", 1⟩, ⟨"fr3_link2", 2⟩]
  adjacentPairs := []
  distinct := by decide

def touch (i j : Nat) : NarrowPhase Nat where
  contact a b := (a = i ∧ b = j) ∨ (a = j ∧ b = i)
  symm a b := by simp [and_comm, or_comm]

/-- The unit box at the origin, and a distant one for object `far`. -/
def boxes (far : Nat) (obj : Nat) : AABB Int :=
  if obj = far then ⟨10, 10, 10, 11, 11, 11⟩ else ⟨0, 0, 0, 1, 1, 1⟩

theorem touch_boxes {i j far : Nat} (first : i ≠ far) (second : j ≠ far) (a b : Nat)
    (contact : (touch i j).contact a b = true) : ((boxes far a).overlap (boxes far b)) = true := by
  rcases of_decide_eq_true contact with ⟨rfl, rfl⟩ | ⟨rfl, rfl⟩ <;> simp [boxes, first, second, AABB.overlap]

private theorem threeLinks_ready : ∃ manager : CoalGPUCollisionManager Nat Int, manager.Ready threeLinks.ptrs := by
  have zeros : Fresh Int := ⟨fun _ => 0, fun _ => 0, fun _ => 0⟩
  obtain ⟨manager, _, ready, _⟩ := CoalGPUCollisionManager.setup_ready threeLinks.ptrs (by decide) true zeros zeros
  exact ⟨manager, ready⟩

theorem first_pair_agrees : ∃ manager : CoalGPUCollisionManager Nat Int,
    threeLinks.Agrees (touch 0 1) manager (boxes 2) id [(0, 1)] := by
  obtain ⟨manager, ready⟩ := threeLinks_ready
  have cpu : CpuOffers (boxes 2) threeLinks.ptrs [(0, 1)] := ⟨by decide +kernel, by decide +kernel⟩
  have touching : ∀ a b, (touch 0 1).contact a b = true → (boxes 2 a).overlap (boxes 2 b) = true :=
    touch_boxes (by decide) (by decide)
  refine ⟨manager, (CollisionScene.agrees_iff _ _ ready _ _ touching cpu).mpr (Or.inr ⟨0, _, _, rfl, by decide, ?_⟩)⟩
  have numbers : kernelRow 0 = 0 ∧ kernelCol 0 = 1 := by decide +kernel
  simp only [CoalGPUCollisionManager.kernelFlags, CoalGPUCollisionManager.deviceBox, numbers, ready.registered]
  rfl

/-- Pair number 1 is the pair of the first and third link, and its flag is computed from the boxes
of the second and third. -/
theorem contact_missed : ∃ manager : CoalGPUCollisionManager Nat Int,
    manager.Ready threeLinks.ptrs ∧ CpuOffers (boxes 1) threeLinks.ptrs [(0, 2)] ∧
      ¬ threeLinks.Agrees (touch 0 2) manager (boxes 1) id [(0, 2)] := by
  obtain ⟨manager, ready⟩ := threeLinks_ready
  refine ⟨manager, ready, ⟨by decide +kernel, by decide +kernel⟩, fun agrees => ?_⟩
  have collided : threeLinks.checkCollisions (touch 0 2) (offering [(0, 2)]) = false := by decide +kernel
  rw [← agrees.1, threeLinks.gpu_verdict (touch 0 2) ready] at collided
  obtain ⟨k, a, b, numbered, collides, flagged⟩ := collided
  have numbers : kernelRow 1 = 1 ∧ kernelCol 1 = 2 := by decide +kernel
  have unflagged : manager.kernelFlags (boxes 1) id 1 = false := by
    simp only [CoalGPUCollisionManager.kernelFlags, CoalGPUCollisionManager.deviceBox, numbers, ready.registered]
    rfl
  match k with
  | 0 =>
    cases numbered
    exact absurd collides (by decide)
  | 1 =>
    rw [unflagged] at flagged
    cases flagged
  | 2 =>
    cases numbered
    exact absurd collides (by decide)
  | k + 3 => cases numbered

end RoboticsRt

import RoboticsRt.Proofs.ChainPoses

/-! What the validity checker means. Over a broad phase that offers every overlapping pair it
accepts a configuration exactly when no two links that are not exempt touch, wherever earlier
checks have left the objects. -/

namespace RoboticsRt

/-- Shapes that touch have boxes that overlap. -/
def Coal.Encloses {Bvh K : Type} [LinearOrder K] (coal : Coal Bvh K) : Prop :=
  ∀ shape1 tf1 shape2 tf2, coal.collide shape1 tf1 shape2 tf2 = true →
    (coal.computeAABB shape1 tf1).overlap (coal.computeAABB shape2 tf2) = true

def BroadPhaseManager.Complete {Obj α : Type} [DecidableEq Obj] [LinearOrder α] (manager : BroadPhaseManager Obj α)
    (objects : List Obj) (state : manager.State) : Prop :=
  ∀ boxes, ∃ offers, CpuOffers boxes objects offers ∧ ∀ callback collided,
    (manager.collide (manager.update state boxes) boxes callback collided).2 = offering offers callback collided

namespace RobotScene
variable {Bvh K : Type} [CommRing K] (scene : RobotScene Bvh K) (coal : Coal Bvh K)

def exempt (i j : scene.Obj) : Bool :=
  let key (i j : scene.Obj) := (scene.linkObjects.get i).linkName ++ ":::" ++ (scene.linkObjects.get j).linkName
  scene.adjacentPairs.contains (key i j) || scene.adjacentPairs.contains (key j i)

/-- No two links touch, but for the exempt ones, with the links at these poses. -/
def ContactFree (poses : String → Frame K) : Prop :=
  ∀ i j, i ≠ j → scene.exempt i j = false →
    coal.collide (scene.linkObjects.get i).bvhModel (scene.posedAt poses i)
      (scene.linkObjects.get j).bvhModel (scene.posedAt poses j) = false

variable {scene coal} {manager : BroadPhaseManager scene.Obj K} {fresh : scene.State manager}

omit [CommRing K] in
theorem collides_iff (narrow : NarrowPhase scene.Obj) (i j : scene.Obj) :
    scene.collisionScene.collides narrow ⟨(scene.linkObjects.get i).linkName, i⟩
        ⟨(scene.linkObjects.get j).linkName, j⟩ = false ↔ (scene.exempt i j = false → narrow.contact i j = false) := by
  have exempt : scene.collisionScene.excluded ⟨(scene.linkObjects.get i).linkName, i⟩
      ⟨(scene.linkObjects.get j).linkName, j⟩ = scene.exempt i j := rfl
  dsimp only [CollisionScene.collides]
  rw [exempt]
  cases scene.exempt i j <;> simp

omit [CommRing K] in
theorem free_iff (narrow : NarrowPhase scene.Obj) : scene.collisionScene.Free narrow ↔
    ∀ i j, i ≠ j → scene.exempt i j = false → narrow.contact i j = false := by
  let link (i : scene.Obj) : LinkObject scene.Obj := ⟨(scene.linkObjects.get i).linkName, i⟩
  have links : scene.collisionScene.linkObjects = (List.finRange scene.linkObjects.length).map link := rfl
  rw [CollisionScene.Free, links, List.pairwise_map]
  constructor
  · intro free i j different
    have symmetric : Std.Symm fun i j => scene.collisionScene.collides narrow (link i) (link j) = false :=
      ⟨fun i j quiet => (scene.collisionScene.collides_symm narrow (link j) (link i)).trans quiet⟩
    exact (collides_iff narrow i j).mp (free.forall (List.mem_finRange i) (List.mem_finRange j) different)
  · intro free
    exact (List.nodup_finRange _).imp fun {i j} different => (collides_iff narrow i j).mpr (free i j different)

theorem checked_iff [LinearOrder K] (encloses : coal.Encloses)
    (complete : manager.Complete (List.finRange scene.linkObjects.length) fresh.broadphase) {state : scene.State manager}
    (same : manager.fixed state.broadphase = manager.fixed fresh.broadphase)
    {q : List K} (size : q.length = scene.model.numJoints)
    (boxed : ∀ i, ((updateCollisionTransforms coal q state).objects i).aabb =
      coal.computeAABB ((updateCollisionTransforms coal q state).objects i).cgeom
        ((updateCollisionTransforms coal q state).objects i).t) :
    (isCollisionFree coal q state).1 = true ↔
      scene.collisionScene.Free (narrowPhase coal (updateCollisionTransforms coal q state)) := by
  let moved := updateCollisionTransforms coal q state
  let boxes (i : scene.Obj) := (moved.objects i).aabb
  obtain ⟨offers, offered, delivers⟩ := complete boxes
  have touching : ∀ a b, (narrowPhase coal moved).contact a b = true → (boxes a).overlap (boxes b) = true := by
    intro a b contact
    dsimp only [boxes, moved]
    rw [boxed, boxed]
    exact encloses _ _ _ _ contact
  have ptrs : scene.collisionScene.ptrs = List.finRange scene.linkObjects.length := by
    rw [CollisionScene.ptrs, collisionScene, List.map_map]
    exact List.map_id _
  have decided := scene.collisionScene.cpu_verdict (narrowPhase coal moved) boxes touching (ptrs ▸ offered)
  have answered : (checkCollisions coal moved).1 =
      scene.collisionScene.checkCollisions (narrowPhase coal moved) (offering offers) := by
    have same := manager.answer _ _ boxes (scene.collisionScene.callback.collide (narrowPhase coal moved)) false same
    exact congrArg not (same.trans (delivers _ _))
  have checked : (isCollisionFree coal q state).1 = (checkCollisions coal moved).1 := by
    rw [isCollisionFree, if_neg (Decidable.not_not.mpr size)]
  rw [checked, answered, decided]

variable {kdl : Kdl K} {pi : K} {resolve : String → String} {urdf : UrdfModel K}

/-- The verdict is the specification's, in terms of true link poses and not of where the checker
puts its objects. The update comes first, so it is no matter where earlier calls have left them. -/
theorem checker_decides [LinearOrder K] (created : UrdfRobotModel.create kdl pi resolve urdf = some scene.model)
    (encloses : coal.Encloses) (started : scene.start coal manager = some fresh)
    (complete : manager.Complete (List.finRange scene.linkObjects.length) fresh.broadphase) (calls : List (List K))
    {q : List K} {poses : String → Frame K} (world : WorldPoses urdf scene.model.chain q poses)
    (home : scene.AtHome poses) :
    (isCollisionFree coal q (afterCalls coal calls fresh)).1 = true ↔
      q.length = scene.model.numJoints ∧ scene.ContactFree coal poses := by
  by_cases size : q.length = scene.model.numJoints
  · have moved := moved_objects created started calls size world home
    have boxed (i : scene.Obj) : ((updateCollisionTransforms coal q (afterCalls coal calls fresh)).objects i).aabb =
        coal.computeAABB ((updateCollisionTransforms coal q (afterCalls coal calls fresh)).objects i).cgeom
          ((updateCollisionTransforms coal q (afterCalls coal calls fresh)).objects i).t := by
      rw [moved i]
    rw [checked_iff encloses complete (calls_alike coal calls fresh).fixed size boxed, free_iff]
    have contact (i j : scene.Obj) :
        (narrowPhase coal (updateCollisionTransforms coal q (afterCalls coal calls fresh))).contact i j =
          coal.collide (scene.linkObjects.get i).bvhModel (scene.posedAt poses i)
            (scene.linkObjects.get j).bvhModel (scene.posedAt poses j) := by
      dsimp only [narrowPhase]
      rw [moved i, moved j]
    simp only [contact]
    exact ⟨fun free => ⟨size, free⟩, fun sized => sized.2⟩
  · have refused : isCollisionFree coal q (afterCalls coal calls fresh) = (false, afterCalls coal calls fresh) :=
      if_pos size
    rw [refused]
    constructor
    · intro accepted
      cases accepted
    · rintro ⟨sized, _⟩
      exact absurd sized size

theorem naive_complete [LinearOrder K] {fresh : scene.State (naiveManager scene.Obj K)}
    (started : scene.start coal (naiveManager scene.Obj K) = some fresh) :
    (naiveManager scene.Obj K).Complete (List.finRange scene.linkObjects.length) fresh.broadphase := by
  have collects (objects known : List scene.Obj) :
      objects.foldl (fun broadphase i => broadphase ++ [i]) known = known ++ objects := by
    induction objects generalizing known with
    | nil => exact (List.append_nil known).symm
    | cons i rest ih => rw [List.foldl_cons, ih, List.append_assoc, List.singleton_append]
  have all : fresh.broadphase = List.finRange scene.linkObjects.length := by
    obtain rfl := Option.some.inj started
    exact collects _ []
  rw [all]
  exact fun boxes => ⟨naivePairs boxes _, naive_offers boxes (List.nodup_finRange _), fun _ _ => rfl⟩

end RobotScene

def total (tf : Transform3s ℚ) : ℚ := ∑ c, tf.T c

/-- Shapes that are one point, in boxes that only know its total. -/
def points : Coal Unit ℚ where
  computeAABB _ tf := ⟨total tf, total tf, total tf, total tf, total tf, total tf⟩
  collide _ tf1 _ tf2 := tf1.T = tf2.T
  symm _ _ _ _ := decide_eq_decide.mpr eq_comm

theorem points_enclose : points.Encloses := by
  intro _ tf1 _ tf2 touching
  have same : tf1.T = tf2.T := of_decide_eq_true touching
  simp [points, AABB.overlap, total, same]

/-! A hand that slides along the first axis, its mesh a unit ahead of it, and a camera fixed to the base. -/

def slide (x : ℚ) : Frame ℚ := ⟨1, ![x, 0, 0]⟩

def slidingHand : UrdfModel ℚ where
  links := [⟨"fr3_link0", none⟩, offsetMesh "fr3_hand",
    ⟨"camera", some ⟨⟨![0, 0, 0], 0, 0, 0, 1⟩, some (.mesh "visual.stl")⟩⟩]
  joints := [⟨"camera_joint", "fr3_link0", "camera", none, .fixed 1⟩,
    ⟨"fr3_joint1", "fr3_link0", "fr3_hand", some ⟨-1, 1⟩, .movable slide⟩]
  names := by decide
  oneParent := by decide

def slidingPoses (q : List ℚ) (linkName : String) : Frame ℚ :=
  if linkName = "fr3_hand" then slide (q.headD 0) else 1

structure SlidingScene (scene : RobotScene Unit ℚ) (fresh : scene.State (naiveManager scene.Obj ℚ)) : Prop where
  created : UrdfRobotModel.create (Kdl.climbing ℚ) mPi id slidingHand = some scene.model
  started : scene.start points (naiveManager _ ℚ) = some fresh
  meshes : scene.linkObjects.length = 2
  joints : scene.model.numJoints = 1
  world : ∀ q, WorldPoses slidingHand scene.model.chain q (slidingPoses q)
  home : ∀ q, scene.AtHome (slidingPoses q)
  free : ∀ q, scene.ContactFree points (slidingPoses q) ↔ q.headD 0 ≠ -1

theorem slidingHand_created : ∃ model, UrdfRobotModel.create (Kdl.climbing ℚ) mPi id slidingHand = some model ∧
    model.chain = [⟨"fr3_hand", "fr3_joint1", .movable slide⟩] ∧
    model.linkMeshes = UrdfRobotModel.extractLinkMeshes id slidingHand.links ∧
    model.adjacentLinkPairs = [("fr3_link0", "camera"), ("fr3_link0", "fr3_hand")] := by
  have found : (Kdl.climbing ℚ).getChain slidingHand "fr3_link0" "fr3_hand" =
      some [⟨"fr3_hand", "fr3_joint1", .movable slide⟩] := by
    have climbed : slidingHand.climb "fr3_link0" slidingHand.joints.length "fr3_hand" [] =
        some [⟨"fr3_joint1", "fr3_link0", "fr3_hand", some ⟨-1, 1⟩, .movable slide⟩] := by
      simp [UrdfModel.climb, slidingHand]
    dsimp only [Kdl.climbing]
    rw [climbed]
    rfl
  exact ⟨_, congrArg (Option.map _) found, rfl, rfl, rfl⟩

theorem slidingHand_world {chain : List (Segment3d ℚ)} (only : chain = [⟨"fr3_hand", "fr3_joint1", .movable slide⟩])
    (q : List ℚ) : WorldPoses slidingHand chain q (slidingPoses q) where
  base := rfl
  child joint member := by
    have neutral (f : Frame ℚ) : (1 : Frame ℚ) * f = f := by
      change (⟨1 * f.M, Matrix.mulVec 1 f.p + 0⟩ : Frame ℚ) = f
      rw [one_mul, Matrix.one_mulVec, add_zero]
    subst only
    rcases List.mem_pair.mp member with rfl | rfl
    · exact (neutral 1).symm
    · exact (neutral (slide (q.headD 0))).symm

def ahead : Transform3s ℚ := kdlToCoal (Pose.frame ⟨![1, 0, 0], 0, 0, 0, 1⟩)

theorem camera_frame : Pose.frame ⟨![0, 0, 0], 0, 0, 0, (1 : ℚ)⟩ = 1 := by
  have rotation : (Pose.frame ⟨![0, 0, 0], 0, 0, 0, (1 : ℚ)⟩).M = 1 := by
    ext r c
    fin_cases r <;> fin_cases c <;> norm_num [Pose.frame]
  have position : (Pose.frame ⟨![0, 0, 0], 0, 0, 0, (1 : ℚ)⟩).p = 0 := by
    funext c
    fin_cases c <;> rfl
  exact congrArg₂ Frame.mk rotation position

section Places
variable {scene : RobotScene Unit ℚ} {i j : scene.Obj}

theorem camera_place (here : scene.linkObjects.get i = ⟨"camera", (), 1⟩) (q : List ℚ) :
    scene.posedAt (slidingPoses q) i = 1 := by
  have base : slidingPoses q "camera" = 1 := if_neg (by decide)
  rw [RobotScene.posedAt, here]
  dsimp only
  rw [base, kdlToCoal_one]
  refine Transform3s.ext (Matrix.one_mul (1 : Matrix (Fin 3) (Fin 3) ℚ)) ?_
  rw [Transform3s.mul_T, Transform3s.one_T, Matrix.mulVec_zero, add_zero]

theorem hand_place (here : scene.linkObjects.get i = ⟨"fr3_hand", (), ahead⟩) (q : List ℚ) :
    (scene.posedAt (slidingPoses q) i).T = ![1 + q.headD 0, 0, 0] := by
  have pose : slidingPoses q "fr3_hand" = slide (q.headD 0) := if_pos rfl
  have upright : (kdlToCoal (slide (q.headD 0))).R = 1 := rfl
  rw [RobotScene.posedAt, here]
  dsimp only
  rw [pose, Transform3s.mul_T, upright, Matrix.one_mulVec]
  funext c
  fin_cases c
  · rfl
  · exact add_zero 0
  · exact add_zero 0

theorem meet_iff (here : scene.linkObjects.get i = ⟨"fr3_hand", (), ahead⟩)
    (there : scene.linkObjects.get j = ⟨"camera", (), 1⟩) (q : List ℚ) :
    (scene.posedAt (slidingPoses q) i).T = (scene.posedAt (slidingPoses q) j).T ↔ q.headD 0 = -1 := by
  rw [hand_place here, camera_place there, Transform3s.one_T]
  constructor
  · intro same
    have onAxis : 1 + q.headD 0 = 0 := congrFun same 0
    linarith
  · intro back
    rw [back]
    funext c
    fin_cases c <;> norm_num

end Places

theorem sliding_scene : ∃ scene fresh, SlidingScene scene fresh := by
  obtain ⟨model, created, chain, meshes, adjacent⟩ := slidingHand_created
  let scene : RobotScene Unit ℚ := RobotScene.load (fun _ => some ()) model
  have links : scene.linkObjects = [⟨"fr3_hand", (), ahead⟩, ⟨"camera", (), 1⟩] := by
    rw [← kdlToCoal_one, ← camera_frame]
    simp only [scene, RobotScene.load, meshes]
    rfl
  have once : Function.Injective scene.linkObjects.get := by
    refine List.nodup_iff_injective_get.mp (List.Nodup.of_map LinkCollisionObject.linkName ?_)
    rw [links]
    decide
  have pair (i : scene.Obj) : scene.linkObjects.get i = ⟨"fr3_hand", (), ahead⟩ ∨
      scene.linkObjects.get i = ⟨"camera", (), 1⟩ := List.mem_pair.mp (links ▸ List.get_mem _ i)
  refine ⟨scene, _, created, rfl, congrArg List.length links, ?_, slidingHand_world chain, fun q i away => ?_, fun q => ?_⟩
  · change model.numJoints = 1
    rw [(UrdfRobotModel.create_chain created).2, chain]
    rfl
  · rcases pair i with here | here
    · refine absurd ?_ away
      have same : scene.model = model := rfl
      rw [RobotScene.Posed, here, same, chain]
      exact List.mem_cons_self
    · exact camera_place here q
  · constructor
    · intro free back
      obtain ⟨i, here⟩ := List.mem_iff_get.mp (links ▸ List.mem_cons_self : _ ∈ scene.linkObjects)
      obtain ⟨j, there⟩ := List.mem_iff_get.mp (links ▸ List.mem_cons_of_mem _ List.mem_cons_self : _ ∈ scene.linkObjects)
      have different : i ≠ j := by
        rintro rfl
        exact absurd (congrArg LinkCollisionObject.linkName (here.symm.trans there)) (by decide)
      have checked : scene.exempt i j = false := by
        have pairs : scene.adjacentPairs = buildAdjacencyList model.adjacentLinkPairs := rfl
        unfold RobotScene.exempt
        dsimp only
        rw [here, there, pairs, adjacent]
        decide
      exact of_decide_eq_false (free i j different checked) ((meet_iff here there q).mpr back)
    · intro away i j different _
      refine decide_eq_false fun touching => ?_
      rcases pair i with here | here <;> rcases pair j with there | there
      · exact different (once (here.trans there.symm))
      · exact away ((meet_iff here there q).mp touching)
      · exact away ((meet_iff there here q).mp touching.symm)
      · exact different (once (here.trans there.symm))

/-- Accepted in one place and refused in another, after two other checks, one of them for another
number of joints. -/
theorem hand_checked : ∃ (scene : RobotScene Unit ℚ) (fresh : scene.State (naiveManager scene.Obj ℚ)),
    scene.linkObjects.length = 2 ∧
      (RobotScene.isCollisionFree points [0] (RobotScene.afterCalls points [[1], []] fresh)).1 = true ∧
      (RobotScene.isCollisionFree points [-1] (RobotScene.afterCalls points [[1], []] fresh)).1 = false := by
  obtain ⟨scene, fresh, slides⟩ := sliding_scene
  have decided (q : List ℚ) := RobotScene.checker_decides slides.created points_enclose slides.started
    (RobotScene.naive_complete slides.started) [[1], []] (slides.world q) (slides.home q)
  refine ⟨scene, fresh, slides.meshes, (decided [0]).mpr ⟨slides.joints.symm, (slides.free [0]).mpr (by decide)⟩, ?_⟩
  refine Bool.eq_false_iff.mpr fun accepted => ?_
  exact (slides.free [-1]).mp ((decided [-1]).mp accepted).2 rfl

end RoboticsRt

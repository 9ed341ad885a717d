import RoboticsRt.Proofs.AttachedLimits
import RoboticsRt.Proofs.PairStreams
import RoboticsRt.Proofs.PureChecker
import Mathlib.Data.Rat.Lemmas
import Mathlib.Tactic.NormNum

/-! Where collision objects are. The chain's segments get the poses of their links; every
other link keeps the transform its object was created with. -/

namespace RoboticsRt
variable {K : Type} [CommRing K]

def jointPosition : List (Segment3d K) → List K → String → K
  | [], _, _ => 0
  | seg :: rest, q, name =>
    if seg.motion.moves then
      if seg.jointName = name then q.headD 0 else jointPosition rest q.tail name
    else jointPosition rest q name

structure WorldPoses (urdf : UrdfModel K) (chain : List (Segment3d K)) (q : List K) (poses : String → Frame K) :
    Prop where
  base : poses "fr3_link0" = 1
  child : ∀ joint ∈ urdf.joints, poses joint.childLinkName =
    poses joint.parentLinkName * joint.motion.at (jointPosition chain q joint.name)

def leftover (seg : Segment3d K) (q : List K) : List K := if seg.motion.moves then q.tail else q

theorem walkChain_cons (seg : Segment3d K) (rest : List (Segment3d K)) (q : List K) (out : Frame K) :
    walkChain (seg :: rest) q out = walkChain rest (leftover seg q) (out * seg.motion.at (q.headD 0)) := by
  unfold leftover
  rw [walkChain]
  cases seg.motion <;> rfl

theorem jointPosition_first (joint : Joint K) (rest : List (Segment3d K)) (q : List K) :
    joint.motion.at (jointPosition (Segment3d.ofJoint joint :: rest) q joint.name) = joint.motion.at (q.headD 0) := by
  rw [jointPosition, Segment3d.ofJoint]
  cases joint.motion with
  | fixed pose => rfl
  | movable pose =>
    rw [JointMotion.moves, if_pos rfl, if_pos rfl]

theorem jointPosition_later {seg : Segment3d K} {name : String} (other : seg.jointName ≠ name)
    (rest : List (Segment3d K)) (q : List K) :
    jointPosition (seg :: rest) q name = jointPosition rest (leftover seg q) name := by
  rw [jointPosition, if_neg other, leftover]
  split <;> rfl

/-- `fkLink` walks the chain with a running index into `q`, and so the pose at a segment depends
on how many segments before it move. -/
theorem walkChain_pose {urdf : UrdfModel K} {link tip : String} {joints : List (Joint K)} {poses : String → Frame K}
    (path : urdf.Path link joints tip) (names : (joints.map Joint.name).Nodup) (q : List K)
    (child : ∀ joint ∈ joints, poses joint.childLinkName =
      poses joint.parentLinkName * joint.motion.at (jointPosition (joints.map Segment3d.ofJoint) q joint.name))
    {i : Nat} {joint : Joint K} (here : joints[i]? = some joint) :
    walkChain ((joints.map Segment3d.ofJoint).take (i + 1)) q (poses link) = poses joint.childLinkName := by
  induction path generalizing q i with
  | here => cases here
  | @down first rest tip member below ih =>
    obtain ⟨fresh, names⟩ := List.nodup_cons.mp names
    have step : poses first.parentLinkName * first.motion.at (q.headD 0) = poses first.childLinkName := by
      rw [child first List.mem_cons_self, List.map_cons, jointPosition_first]
    have move : (Segment3d.ofJoint first).motion = first.motion := rfl
    rw [List.map_cons, List.take_succ_cons, walkChain_cons, move, step]
    cases i with
    | zero =>
      cases here
      rfl
    | succ i =>
      refine ih names _ (fun other later => ?_) here
      have different : first.name ≠ other.name := fun same => fresh (same ▸ List.mem_map_of_mem later)
      rw [child other (List.mem_cons_of_mem _ later), List.map_cons, jointPosition_later different]

namespace UrdfRobotModel
variable {kdl : Kdl K} {pi : K} {resolve : String → String} {urdf : UrdfModel K} {model : UrdfRobotModel K}

theorem create_chain (created : create kdl pi resolve urdf = some model) :
    kdl.getChain urdf "fr3_link0" "fr3_hand" = some model.chain ∧
      model.numJoints = RoboticsRt.nrOfJoints model.chain := by
  obtain ⟨chain, found, rfl⟩ := Option.map_eq_some_iff.mp created
  exact ⟨found, rfl⟩

theorem fkLink_pose (created : create kdl pi resolve urdf = some model) {q : List K} (size : q.length = model.numJoints)
    {poses : String → Frame K} (world : WorldPoses urdf model.chain q poses) {linkName : String}
    (posed : linkName ∈ model.chain.map Segment3d.name) : model.fkLink q linkName = some (poses linkName) := by
  obtain ⟨found, count⟩ := create_chain created
  obtain ⟨joints, path, once, segments⟩ := kdl.path _ _ _ _ found
  obtain ⟨i, seg, here, named, walked⟩ := model.fkLink_some (q := q) posed
  have whole : ((List.range (RoboticsRt.nrOfJoints model.chain)).map fun i => q.getD i 0) = q := by
    rw [← count, ← size]
    exact List.ext_getElem (by simp) fun j _ before => by simp [List.getD_eq_getElem?_getD, before]
  have names : (joints.map Joint.name).Nodup :=
    once.map_on fun a first b second same =>
      List.inj_on_of_nodup_map urdf.names (path.member a first) (path.member b second) same
  rw [segments, List.getElem?_map, Option.map_eq_some_iff] at here
  obtain ⟨joint, at_i, rfl⟩ := here
  have pose := walkChain_pose path names q
    (fun joint member => segments ▸ world.child joint (path.member joint member)) at_i
  rw [world.base] at pose
  rw [walked, whole, segments, pose, ← named]
  rfl

end UrdfRobotModel

namespace RobotScene
variable {Bvh : Type} {scene : RobotScene Bvh K} {manager : BroadPhaseManager scene.Obj K}

def AllPlaced (poses : String → Frame K) (state : scene.State manager) : Prop :=
  ∀ i, (state.objects i).t =
    kdlToCoal (poses (scene.linkObjects.get i).linkName) * (scene.linkObjects.get i).localTransform

/-- Where an object belongs: at the pose of its link, moved on by the mesh offset. -/
def posedAt (scene : RobotScene Bvh K) (poses : String → Frame K) (i : scene.Obj) : Transform3s K :=
  kdlToCoal (poses (scene.linkObjects.get i).linkName) * (scene.linkObjects.get i).localTransform

/-- The checker never moves an object off the chain. It is right about them where the pose of the
link and the mesh offset leave the object where it was created, at the origin. -/
def AtHome (scene : RobotScene Bvh K) (poses : String → Frame K) : Prop :=
  ∀ i, ¬ scene.Posed i → scene.posedAt poses i = 1

theorem unposed_object {coal : Coal Bvh K} {fresh : scene.State manager} (started : scene.start coal manager = some fresh)
    (calls : List (List K)) (q : List K) {i : scene.Obj} (away : ¬ scene.Posed i) :
    (updateCollisionTransforms coal q (afterCalls coal calls fresh)).objects i =
      newObject coal (scene.linkObjects.get i).bvhModel := by
  have alike := (updated_alike coal q _).trans (calls_alike coal calls fresh)
  obtain ⟨broadphase, _, rfl⟩ := Option.map_eq_some_iff.mp started
  rw [alike.unposed i away]

variable {kdl : Kdl K} {pi : K} {resolve : String → String} {urdf : UrdfModel K}

/-- After any calls every object is moved to where it belongs and has the box of its shape there. -/
theorem moved_objects (created : UrdfRobotModel.create kdl pi resolve urdf = some scene.model) {coal : Coal Bvh K}
    {fresh : scene.State manager} (started : scene.start coal manager = some fresh) (calls : List (List K)) {q : List K}
    (size : q.length = scene.model.numJoints) {poses : String → Frame K} (world : WorldPoses urdf scene.model.chain q poses)
    (home : scene.AtHome poses) (i : scene.Obj) :
    (updateCollisionTransforms coal q (afterCalls coal calls fresh)).objects i =
      ⟨(scene.linkObjects.get i).bvhModel, scene.posedAt poses i,
        coal.computeAABB (scene.linkObjects.get i).bvhModel (scene.posedAt poses i)⟩ := by
  by_cases posed : scene.Posed i
  · have alike := calls_alike coal calls fresh
    obtain ⟨broadphase, _, rfl⟩ := Option.map_eq_some_iff.mp started
    rw [alike.updated coal q]
    dsimp only [updateCollisionTransforms, placed]
    rw [UrdfRobotModel.fkLink_pose created size world posed]
    rfl
  · rw [unposed_object started calls q posed, home i posed]
    rfl

variable {model : UrdfRobotModel K}

/-- `updateCollisionTransforms` goes over the segments of the chain, so an object of any other link
keeps the identity it was created with, and with it no mesh offset. -/
theorem all_placed_iff (created : UrdfRobotModel.create kdl pi resolve urdf = some model)
    (loadMesh : String → Option Bvh) (coal : Coal Bvh K) (manager : BroadPhaseManager (load loadMesh model).Obj K)
    {fresh : (load loadMesh model).State manager} (started : (load loadMesh model).start coal manager = some fresh)
    (calls : List (List K)) {q : List K} (size : q.length = model.numJoints) {poses : String → Frame K}
    (world : WorldPoses urdf model.chain q poses) :
    AllPlaced poses (updateCollisionTransforms coal q (afterCalls coal calls fresh)) ↔
      ∀ i, ¬ (load loadMesh model).Posed i →
        kdlToCoal (poses ((load loadMesh model).linkObjects.get i).linkName) *
          ((load loadMesh model).linkObjects.get i).localTransform = 1 := by
  constructor
  · intro all i away
    rw [← all i, unposed_object started calls q away]
    rfl
  · intro home i
    have created : UrdfRobotModel.create kdl pi resolve urdf = some (load loadMesh model).model := created
    rw [moved_objects created started calls size world home i]
    rfl

end RobotScene

/-! One mesh, a unit away from the origin of its link, in a model whose links coincide. -/

def offsetMesh (linkName : String) : Link ℚ := ⟨linkName, some ⟨⟨![1, 0, 0], 0, 0, 0, 1⟩, some (.mesh "visual.stl")⟩⟩

def noContacts : Coal Unit ℚ := ⟨fun _ _ => ⟨0, 0, 0, 0, 0, 0⟩, fun _ _ _ _ => false, fun _ _ _ _ => rfl⟩

theorem offsetMesh_object {linkName : String} {model : UrdfRobotModel ℚ}
    (meshes : model.linkMeshes = UrdfRobotModel.extractLinkMeshes id [offsetMesh linkName]) :
    (RobotScene.load (fun _ => some ()) model).linkObjects.length = 1 ∧
      ∀ i, (RobotScene.load (fun _ => some ()) model).linkObjects.get i =
        ⟨linkName, (), kdlToCoal (Pose.frame ⟨![1, 0, 0], 0, 0, 0, 1⟩)⟩ := by
  have only : (RobotScene.load (fun _ => some ()) model).linkObjects =
      [⟨linkName, (), kdlToCoal (Pose.frame ⟨![1, 0, 0], 0, 0, 0, 1⟩)⟩] := by
    simp only [RobotScene.load, meshes]
    rfl
  have all {lco} (member : lco ∈ (RobotScene.load (fun _ => some ()) model).linkObjects) : lco = _ :=
    List.mem_singleton.mp (only ▸ member)
  exact ⟨congrArg List.length only, fun i => all (List.get_mem _ i)⟩

theorem limitedJoint_world (links : List (Link ℚ)) (chain : List (Segment3d ℚ)) (q : List ℚ) :
    WorldPoses (limitedJoint "fr3_joint1" links) chain q fun _ => 1 where
  base := rfl
  child joint member := by
    cases List.mem_singleton.mp member
    change (1 : Frame ℚ) = ⟨1 * 1, Matrix.mulVec 1 0 + 0⟩
    rw [Matrix.mul_one, Matrix.mulVec_zero, add_zero]
    rfl

theorem hand_placed : ∃ model,
    UrdfRobotModel.create (Kdl.climbing ℚ) mPi id (limitedJoint "fr3_joint1" [offsetMesh "fr3_hand"]) = some model ∧
      ∃ fresh : (RobotScene.load (fun _ => some ()) model).State (naiveManager _ ℚ),
        (RobotScene.load (fun _ => some ()) model).start noContacts (naiveManager _ ℚ) = some fresh ∧
          RobotScene.AllPlaced (fun _ => 1) (RobotScene.updateCollisionTransforms noContacts [0] fresh) := by
  obtain ⟨model, created, chain, meshes⟩ := limitedJoint_created "fr3_joint1" [offsetMesh "fr3_hand"]
  refine ⟨model, created, _, rfl, ?_⟩
  have size : [(0 : ℚ)].length = model.numJoints := by
    rw [(UrdfRobotModel.create_chain created).2, chain]
    rfl
  refine (RobotScene.all_placed_iff created _ noContacts _ rfl [] size (limitedJoint_world _ _ _)).mpr fun i away => ?_
  have posed : "fr3_hand" ∈ model.chain.map Segment3d.name := by
    rw [chain]
    exact List.mem_cons_self
  rw [RobotScene.Posed, (offsetMesh_object meshes).2] at away
  exact absurd posed away

theorem base_misplaced : ∃ model,
    UrdfRobotModel.create (Kdl.climbing ℚ) mPi id (limitedJoint "fr3_joint1" [offsetMesh "fr3_link0"]) = some model ∧
      ∃ fresh : (RobotScene.load (fun _ => some ()) model).State (naiveManager _ ℚ),
        (RobotScene.load (fun _ => some ()) model).start noContacts (naiveManager _ ℚ) = some fresh ∧
          ¬ RobotScene.AllPlaced (fun _ => 1) (RobotScene.updateCollisionTransforms noContacts [0] fresh) := by
  obtain ⟨model, created, chain, meshes⟩ := limitedJoint_created "fr3_joint1" [offsetMesh "fr3_link0"]
  have started : (RobotScene.load (fun _ => some ()) model).start noContacts (naiveManager _ ℚ) = some _ := rfl
  refine ⟨model, created, _, started, fun all => ?_⟩
  obtain ⟨count, link⟩ := offsetMesh_object meshes
  let i : (RobotScene.load (fun _ => some ()) model).Obj := ⟨0, count.symm ▸ Nat.one_pos⟩
  have away : ¬ (RobotScene.load (fun _ => some ()) model).Posed i := by
    have same : (RobotScene.load (fun _ => some ()) model).model = model := rfl
    rw [RobotScene.Posed, link, same, chain]
    decide
  have stays := (all i).symm.trans (congrArg CollisionObject.t (RobotScene.unposed_object started [] [0] away))
  rw [link] at stays
  -- the mesh belongs one unit along the first axis
  rw [kdlToCoal_one] at stays
  have moved := congrFun (congrArg Transform3s.T stays) 0
  have unit : (1 : Transform3s ℚ).R = 1 := rfl
  rw [Transform3s.mul_T, unit, Matrix.one_mulVec, Transform3s.one_T, add_zero] at moved
  exact one_ne_zero moved

end RoboticsRt

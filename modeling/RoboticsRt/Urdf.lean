import Mathlib.LinearAlgebra.Matrix.Notation
import Mathlib.Data.List.Nodup

/-! What the program reads from URDF files and asks of KDL. A frame is a rotation matrix
and a position; a joint moves its child link by a frame that depends on one coordinate,
or on none. The two maps of a URDF model are lists in key order. -/

namespace RoboticsRt

structure Frame (K : Type) where
  M : Matrix (Fin 3) (Fin 3) K
  p : Fin 3 → K

@[ext]
structure JointLimits (K : Type) where
  lower : K
  upper : K
  deriving DecidableEq

inductive JointMotion (K : Type) where
  | fixed (pose : Frame K) -- `KDL::Joint::None`
  | movable (pose : K → Frame K)

structure Joint (K : Type) where
  name : String
  parentLinkName : String
  childLinkName : String
  limits : Option (JointLimits K)
  motion : JointMotion K

structure Pose (K : Type) where
  position : Fin 3 → K
  x : K -- the quaternion
  y : K
  z : K
  w : K

inductive Geometry where
  | mesh (filename : String)
  | primitive -- sphere, box or cylinder

structure Collision (K : Type) where
  origin : Pose K
  geometry : Option Geometry

structure Link (K : Type) where
  name : String
  collision : Option (Collision K)

/-- The joints are kept by name, and no link hangs on two of them. -/
structure UrdfModel (K : Type) where
  links : List (Link K)
  joints : List (Joint K)
  names : (joints.map Joint.name).Nodup
  oneParent : (joints.map Joint.childLinkName).Nodup

/-- One segment of a `KDL::Chain`. -/
structure Segment3d (K : Type) where
  name : String
  jointName : String
  motion : JointMotion K

variable {K : Type}

def UrdfModel.getJoint (urdf : UrdfModel K) (name : String) : Option (Joint K) :=
  urdf.joints.find? fun joint => joint.name == name

theorem UrdfModel.getJoint_member (urdf : UrdfModel K) {joint : Joint K} (member : joint ∈ urdf.joints) :
    urdf.getJoint joint.name = some joint := by
  obtain ⟨found, some⟩ := Option.isSome_iff_exists.mp <|
    List.find?_isSome.mpr (⟨joint, member, beq_self_eq_true _⟩ : ∃ j ∈ urdf.joints, (j.name == joint.name) = true)
  have same : found.name = joint.name := eq_of_beq (List.find?_some some :)
  have inside : found ∈ urdf.joints := List.mem_of_find?_eq_some some
  rw [getJoint, some, List.inj_on_of_nodup_map urdf.names inside member same]

def JointMotion.moves : JointMotion K → Bool
  | .fixed _ => false
  | .movable _ => true

/-- `kdl_parser` names a segment after the child link and keeps the joint's name. -/
def Segment3d.ofJoint (joint : Joint K) : Segment3d K := ⟨joint.childLinkName, joint.name, joint.motion⟩

def nrOfJoints (chain : List (Segment3d K)) : Nat := chain.countP fun seg => seg.motion.moves

/-- The joints met on the way down from one link to another. -/
inductive UrdfModel.Path (urdf : UrdfModel K) : String → List (Joint K) → String → Prop where
  | here (link) : Path urdf link [] link
  | down {joint rest tip} (member : joint ∈ urdf.joints) (below : Path urdf joint.childLinkName rest tip) :
      Path urdf joint.parentLinkName (joint :: rest) tip

theorem UrdfModel.Path.member {urdf : UrdfModel K} {base tip : String} {joints : List (Joint K)}
    (path : urdf.Path base joints tip) : ∀ joint ∈ joints, joint ∈ urdf.joints := by
  induction path with
  | here => intro joint member; cases member
  | down first _ ih =>
    intro joint member
    rcases List.mem_cons.mp member with rfl | below
    · exact first
    · exact ih joint below

/-- `treeFromUrdfModel` and `getChain`: the segments from the base, exclusive, to the tip. `path` covers
chains that go down from the base. KDL also returns chains through a common ancestor, with the upward
segments inverted; a tree of joints whose base is no ancestor of the tip is outside this model. -/
structure Kdl (K : Type) where
  getChain : UrdfModel K → String → String → Option (List (Segment3d K))
  path : ∀ urdf base tip chain, getChain urdf base tip = some chain →
    ∃ joints, urdf.Path base joints tip ∧ joints.Nodup ∧ chain = joints.map Segment3d.ofJoint

/-- From the tip up to the base, by the one joint each link hangs on. -/
def UrdfModel.climb (urdf : UrdfModel K) (base : String) : Nat → String → List (Joint K) → Option (List (Joint K))
  | 0, link, below => if link = base then some below else none
  | fuel + 1, link, below =>
    if link = base then some below
    else
      match urdf.joints.find? fun joint => joint.childLinkName == link with
      | some joint => urdf.climb base fuel joint.parentLinkName (joint :: below)
      | none => none

theorem UrdfModel.climb_path {urdf : UrdfModel K} {base tip link : String} {fuel : Nat} {below joints : List (Joint K)}
    (path : urdf.Path link below tip) (climbed : urdf.climb base fuel link below = some joints) :
    urdf.Path base joints tip := by
  induction fuel generalizing link below with
  | zero =>
    unfold climb at climbed
    split at climbed
    next arrived => cases climbed; exact arrived ▸ path
    · cases climbed
  | succ fuel ih =>
    unfold climb at climbed
    split at climbed
    next arrived => cases climbed; exact arrived ▸ path
    · split at climbed
      next joint found =>
        have child : joint.childLinkName = link := eq_of_beq (List.find?_some found :)
        exact ih (.down (List.mem_of_find?_eq_some found) (child ▸ path)) climbed
      · cases climbed

/-- A KDL for examples: the climb, kept when it meets no joint twice. -/
def Kdl.climbing (K : Type) : Kdl K where
  getChain urdf base tip :=
    (urdf.climb base urdf.joints.length tip []).bind fun joints =>
      if (joints.map Joint.name).Nodup then some (joints.map Segment3d.ofJoint) else none
  path urdf base tip chain found := by
    obtain ⟨joints, climbed, kept⟩ := Option.bind_eq_some_iff.mp found
    split at kept
    next once => cases kept; exact ⟨joints, urdf.climb_path (.here tip) climbed, List.Nodup.of_map _ once, rfl⟩
    · cases kept

section Frames
variable [CommRing K]

instance : One (Frame K) := ⟨⟨1, 0⟩⟩

instance : Mul (Frame K) := ⟨fun a b => ⟨a.M * b.M, a.M.mulVec b.p + a.p⟩⟩

/-- `KDL::Rotation::Quaternion` and the position. -/
def Pose.frame (pose : Pose K) : Frame K where
  M := !![pose.w ^ 2 + pose.x ^ 2 - pose.y ^ 2 - pose.z ^ 2, 2 • (pose.x * pose.y) - 2 • (pose.w * pose.z),
      2 • (pose.x * pose.z) + 2 • (pose.w * pose.y);
    2 • (pose.x * pose.y) + 2 • (pose.w * pose.z), pose.w ^ 2 - pose.x ^ 2 + pose.y ^ 2 - pose.z ^ 2,
      2 • (pose.y * pose.z) - 2 • (pose.w * pose.x);
    2 • (pose.x * pose.z) - 2 • (pose.w * pose.y), 2 • (pose.y * pose.z) + 2 • (pose.w * pose.x),
      pose.w ^ 2 - pose.x ^ 2 - pose.y ^ 2 + pose.z ^ 2]
  p := pose.position

def JointMotion.at (motion : JointMotion K) (position : K) : Frame K :=
  match motion with
  | .fixed pose => pose
  | .movable pose => pose position

-- the loop of `JntToCart`: only joints that move take the next coordinate
def walkChain : List (Segment3d K) → List K → Frame K → Frame K
  | [], _, out => out
  | seg :: rest, q, out =>
    match seg.motion with
    | .fixed pose => walkChain rest q (out * pose)
    | .movable pose => walkChain rest q.tail (out * pose (q.headD 0))

/-- `JntToCart`, with `none` for its errors. -/
def jntToCart (chain : List (Segment3d K)) (q : List K) (segmentNr : Nat) : Option (Frame K) :=
  if q.length ≠ nrOfJoints chain then none
  else if chain.length < segmentNr then none
  else some (walkChain (chain.take segmentNr) q 1)

end Frames
end RoboticsRt

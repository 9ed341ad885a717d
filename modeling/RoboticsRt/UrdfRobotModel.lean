import RoboticsRt.RobotModel
import RoboticsRt.Urdf

/-! The robot model as its constructor builds it (`robot_model.cpp`): the chain from the
base to the hand, the limits of its joints, the link meshes and the adjacent links.
`pi` is the value of `M_PI`, and `resolve` makes mesh paths absolute. -/

namespace RoboticsRt

structure LinkMesh (K : Type) where
  linkName : String
  meshPath : String
  visualOffset : Frame K

structure UrdfRobotModel (K : Type) extends RobotModel K where
  chain : List (Segment3d K)
  linkMeshes : List (LinkMesh K)
  adjacentLinkPairs : List (String × String)

/-- `KDL::ChainIkSolverPos_NR_JL`: what it finds lies within the arrays it was constructed with. -/
structure ChainIkSolverPosNrJl (Frame K : Type) [LE K] (qMin qMax : List K) where
  cartToJnt : CartToJnt Frame K
  within : ∀ seed target, 0 ≤ (cartToJnt seed target).1 → ∀ i (low high : K), qMin[i]? = some low → qMax[i]? = some high →
    low ≤ (cartToJnt seed target).2 i ∧ (cartToJnt seed target).2 i ≤ high

namespace UrdfRobotModel
variable {K : Type} [CommRing K]

/-- The loop over the segments; `jointIdx` counts the joints that move. -/
def limitsLoop (urdf : UrdfModel K) (pi : K) : List (Segment3d K) → Nat → List K → List K → List K × List K
  | [], _, qMin, qMax => (qMin, qMax)
  | seg :: rest, jointIdx, qMin, qMax =>
    if seg.motion.moves then
      match (urdf.getJoint seg.name).bind Joint.limits with
      | some limits =>
        limitsLoop urdf pi rest (jointIdx + 1) (qMin.set jointIdx limits.lower) (qMax.set jointIdx limits.upper)
      | none => limitsLoop urdf pi rest (jointIdx + 1) (qMin.set jointIdx (-pi)) (qMax.set jointIdx pi)
    else limitsLoop urdf pi rest jointIdx qMin qMax

def extractLinkMeshes (resolve : String → String) (links : List (Link K)) : List (LinkMesh K) :=
  links.filterMap fun link =>
    match link.collision with
    | some ⟨origin, some (.mesh filename)⟩ => some ⟨link.name, resolve filename, origin.frame⟩
    | _ => none

def extractAdjacentPairs (joints : List (Joint K)) : List (String × String) :=
  joints.filterMap fun joint =>
    if joint.parentLinkName.isEmpty || joint.childLinkName.isEmpty then none
    else some (joint.parentLinkName, joint.childLinkName)

/-- The constructor, once the file is parsed; `none` where it throws. -/
def create (kdl : Kdl K) (pi : K) (resolve : String → String) (urdf : UrdfModel K) : Option (UrdfRobotModel K) :=
  (kdl.getChain urdf "fr3_link0" "fr3_hand").map fun chain =>
    let zeros := List.replicate (nrOfJoints chain) 0
    let (qMin, qMax) := limitsLoop urdf pi chain 0 zeros zeros
    { nrOfJoints := nrOfJoints chain
      qMin, qMax, chain
      linkMeshes := extractLinkMeshes resolve urdf.links
      adjacentLinkPairs := extractAdjacentPairs urdf.joints }

/-- The limit arrays `extractChainAndInitSolvers` constructs `ik_solver_` with. The solver is
not constructed again when the limits of the URDF are read. -/
def solverLimits (pi : K) (chain : List (Segment3d K)) : List K × List K :=
  (List.replicate (RoboticsRt.nrOfJoints chain) (-pi), List.replicate (RoboticsRt.nrOfJoints chain) pi)

variable (model : UrdfRobotModel K)

/-- The joint array is filled from `q`, which is never longer. -/
def fkLink (q : List K) (linkName : String) : Option (Frame K) :=
  let qKdl := (List.range (RoboticsRt.nrOfJoints model.chain)).map fun i => q.getD i 0
  match model.chain.findIdx? fun seg => seg.name == linkName with
  | some i => jntToCart model.chain qKdl (i + 1)
  | none => none

end UrdfRobotModel
end RoboticsRt

import RoboticsRt.Proofs.AttachedLimits
import Mathlib.Algebra.Order.Ring.Defs

/-! Which configurations inverse kinematics returns. Its solver is constructed before the
limits of the URDF are read and keeps the arrays it was given. -/

namespace RoboticsRt
namespace UrdfRobotModel

variable {K : Type} [CommRing K]

theorem create_numJoints {urdf : UrdfModel K} {pi : K} {kdl : Kdl K} {resolve : String → String} {model : UrdfRobotModel K}
    (created : create kdl pi resolve urdf = some model) : model.numJoints = (moving model.chain).length := by
  obtain ⟨chain, found, rfl⟩ := Option.map_eq_some_iff.mp created
  rw [moving, ← List.countP_eq_length_filter]
  rfl

variable [LinearOrder K]

/-- Every configuration such a solver makes `ik` return lies within the limits of the joints. -/
def IkWithinLimits (urdf : UrdfModel K) (pi : K) (model : UrdfRobotModel K) : Prop :=
  ∀ (solver : ChainIkSolverPosNrJl (Frame K) K (solverLimits pi model.chain).1 (solverLimits pi model.chain).2)
    (target : Frame K) (qSeed qOut : List K), qSeed.length = model.numJoints →
    model.ik solver.cartToJnt target qSeed = some qOut →
      qOut.length = model.numJoints ∧ ∀ (k : Nat) (seg : Segment3d K) (joint : Joint K),
        (moving model.chain)[k]? = some seg → urdf.getJoint seg.jointName = some joint → ∃ q, qOut[k]? = some q ∧
          (limitsOr pi joint.limits).lower ≤ q ∧ q ≤ (limitsOr pi joint.limits).upper

/-- A solver that answers every target with one value for all joints. -/
def constantSolver (pi : K) (chain : List (Segment3d K)) (value : K) (low : -pi ≤ value) (high : value ≤ pi) :
    ChainIkSolverPosNrJl (Frame K) K (solverLimits pi chain).1 (solverLimits pi chain).2 where
  cartToJnt := fun _ _ => (0, fun _ => value)
  within := by
    intro seed target _ i lower upper atLower atUpper
    rw [List.eq_of_mem_replicate (List.mem_of_getElem? atLower), List.eq_of_mem_replicate (List.mem_of_getElem? atUpper)]
    exact ⟨low, high⟩

variable {urdf : UrdfModel K} {pi : K} {kdl : Kdl K} {resolve : String → String} {model : UrdfRobotModel K}

theorem IkWithinLimits.contains (safe : IkWithinLimits urdf pi model) {joint : Joint K} (member : joint ∈ urdf.joints)
    (moves : Segment3d.ofJoint joint ∈ moving model.chain) {value : K} (low : -pi ≤ value) (high : value ≤ pi) :
    (limitsOr pi joint.limits).lower ≤ value ∧ value ≤ (limitsOr pi joint.limits).upper := by
  obtain ⟨k, here⟩ := List.getElem?_of_mem moves
  have size : (List.replicate model.numJoints (0 : K)).length = model.nrOfJoints := List.length_replicate
  have solved : model.ik (constantSolver pi model.chain value low high).cartToJnt 1 (List.replicate model.numJoints 0) =
      some ((List.range model.nrOfJoints).map fun _ => value) := by
    rw [RobotModel.ik, if_neg (not_not.mpr size)]
    rfl
  obtain ⟨_, within⟩ := safe _ _ _ _ size solved
  obtain ⟨q, entry, bounds⟩ := within k _ joint here (urdf.getJoint_member member)
  rw [List.getElem?_map, Option.map_eq_some_iff] at entry
  obtain ⟨_, _, rfl⟩ := entry
  exact bounds

theorem ik_entry (created : create kdl pi resolve urdf = some model)
    {solver : ChainIkSolverPosNrJl (Frame K) K (solverLimits pi model.chain).1 (solverLimits pi model.chain).2}
    {target : Frame K} {qSeed qOut : List K} (solved : model.ik solver.cartToJnt target qSeed = some qOut) {k : Nat}
    (inside : k < (moving model.chain).length) : ∃ q, qOut[k]? = some q ∧ -pi ≤ q ∧ q ≤ pi := by
  have count := create_numJoints created
  unfold RobotModel.ik at solved
  split at solved
  · cases solved
  · dsimp only at solved
    split at solved
    next found =>
      cases solved
      have joints : nrOfJoints model.chain = (moving model.chain).length := List.countP_eq_length_filter
      have known : k < model.nrOfJoints := inside.trans_eq count.symm
      refine ⟨_, ?_, solver.within qSeed target found k _ _ ?_ ?_⟩
      · rw [List.getElem?_map, List.getElem?_range known]
        rfl
      · rw [solverLimits, List.getElem?_replicate_of_lt (joints ▸ inside)]
      · rw [solverLimits, List.getElem?_replicate_of_lt (joints ▸ inside)]
    · cases solved

/-- The solver keeps the arrays it was constructed with, and nothing else about it is assumed:
where a joint is limited more narrowly than the arrays, some such solver leaves its limits. -/
theorem ik_within_limits_iff (created : create kdl pi resolve urdf = some model) (ordered : -pi ≤ pi) :
    IkWithinLimits urdf pi model ↔ ∀ joint ∈ urdf.joints, Segment3d.ofJoint joint ∈ moving model.chain →
      (limitsOr pi joint.limits).lower ≤ -pi ∧ pi ≤ (limitsOr pi joint.limits).upper := by
  constructor
  · intro safe joint member moves
    exact ⟨(safe.contains member moves le_rfl ordered).1, (safe.contains member moves ordered le_rfl).2⟩
  · intro wide solver target qSeed qOut seeded solved
    refine ⟨(RobotModel.ik_some solved).2, fun k seg joint here named => ?_⟩
    obtain ⟨inside, _⟩ := List.getElem?_eq_some_iff.mp here
    obtain ⟨q, entry, low, high⟩ := ik_entry created solved inside
    obtain ⟨joints, path, _, segments⟩ := kdl.path _ _ _ _ (create_limits created).1
    have moves := List.mem_of_getElem? here
    have onChain : seg ∈ joints.map Segment3d.ofJoint := segments ▸ (List.mem_filter.mp moves).1
    obtain ⟨mover, member, rfl⟩ := List.mem_map.mp onChain
    have member := path.member mover member
    have same : joint = mover := Option.some.inj (named.symm.trans (urdf.getJoint_member member))
    obtain ⟨lower, upper⟩ := same ▸ wide mover member moves
    exact ⟨q, entry, lower.trans low, high.trans upper⟩

end UrdfRobotModel

theorem limited_joint_safe_iff : ∃ model,
    UrdfRobotModel.create (Kdl.climbing ℚ) mPi id (limitedJoint "fr3_hand" []) = some model ∧
      (UrdfRobotModel.IkWithinLimits (limitedJoint "fr3_hand" []) mPi model ↔
        ∀ joint ∈ (limitedJoint "fr3_hand" []).joints, Segment3d.ofJoint joint ∈ moving model.chain →
          (limitsOr mPi joint.limits).lower ≤ -mPi ∧ mPi ≤ (limitsOr mPi joint.limits).upper) := by
  obtain ⟨model, created, _⟩ := limitedJoint_created "fr3_hand" []
  exact ⟨model, created, UrdfRobotModel.ik_within_limits_iff created (by norm_num [mPi])⟩

theorem limited_joint_overturned : ∃ model,
    UrdfRobotModel.create (Kdl.climbing ℚ) mPi id (limitedJoint "fr3_hand" []) = some model ∧
      ¬ UrdfRobotModel.IkWithinLimits (limitedJoint "fr3_hand" []) mPi model := by
  obtain ⟨model, created, chain, _⟩ := limitedJoint_created "fr3_hand" []
  refine ⟨model, created, fun safe => ?_⟩
  have member : (limitedJoint "fr3_hand" []).joints[0] ∈ (limitedJoint "fr3_hand" []).joints := List.getElem_mem _
  have moves : Segment3d.ofJoint (limitedJoint "fr3_hand" []).joints[0] ∈ moving model.chain := by
    rw [chain]
    exact List.mem_singleton_self _
  have bounds := safe.contains member moves (by norm_num [mPi]) (le_refl mPi)
  have turned : mPi ≤ (1 : ℚ) := bounds.2
  norm_num [mPi] at turned

end RoboticsRt

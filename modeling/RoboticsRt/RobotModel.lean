import Mathlib.Data.List.GetD

/-! What planning asks of the kinematic model (`robot_model.cpp`). The numerical solver
is a function of seed and target that returns a code and an array. -/

namespace RoboticsRt

structure RobotModel (K : Type) where
  nrOfJoints : Nat -- of the KDL chain
  qMin : List K
  qMax : List K

/-- `ik_solver_->CartToJnt(q_seed, target, q_sol)`: the return code and `q_sol`. -/
abbrev CartToJnt (Frame K : Type) := List K → Frame → Int × (Nat → K)

namespace RobotModel
variable {Frame K : Type}

def numJoints (model : RobotModel K) : Nat := model.nrOfJoints

def ik (model : RobotModel K) (cartToJnt : CartToJnt Frame K) (target : Frame) (qSeed : List K) :
    Option (List K) :=
  if qSeed.length ≠ model.nrOfJoints then none -- seed size mismatch
  else
    let (ret, qSol) := cartToJnt qSeed target
    if 0 ≤ ret then some ((List.range model.nrOfJoints).map qSol) else none

def jointLimits (model : RobotModel K) : List K × List K := (model.qMin, model.qMax)

theorem ik_some {model : RobotModel K} {cartToJnt : CartToJnt Frame K} {target : Frame} {qSeed qOut : List K}
    (solved : model.ik cartToJnt target qSeed = some qOut) :
    qSeed.length = model.numJoints ∧ qOut.length = model.numJoints := by
  unfold ik at solved
  split at solved
  · cases solved
  next size =>
    dsimp only at solved
    split at solved
    · cases solved
      exact ⟨Decidable.not_not.mp size, by simp [numJoints]⟩
    · cases solved

end RobotModel
end RoboticsRt

import RoboticsRt.RobotModel
import RoboticsRt.Trajectory

/-! One planning attempt (`planner.cpp`): inverse kinematics, the OMPL search and the
spline fit, between the request taken and the callback. The two solvers are parameters:
a new attempt may find them anywhere in their internal state. -/

namespace RoboticsRt

structure PlanRequest (Frame K : Type) where
  target : Frame
  durationS : K
  qCurrent : List K

inductive PlannerStatus where
  | unknown | invalidStart | invalidGoal | unrecognizedGoalType | timeout
  | approximateSolution | exactSolution | crash | abort | infeasible
  deriving DecidableEq

/-- OMPL's conversion to `bool`. -/
def PlannerStatus.toBool : PlannerStatus → Bool
  | .approximateSolution | .exactSolution => true
  | _ => false

/-- The problem `runOMPL` sets up. -/
structure Problem (K : Type) where
  dimension : Nat
  bounds : List (K × K)
  isValid : List K → Bool
  start : List K
  goal : List K
  goalTolerance : K
  timeLimitS : K

/-- What `ss.solve` returns and the value arrays of the states of its solution path. -/
structure Solution (K : Type) where
  status : PlannerStatus
  path : List (Nat → K)

structure Solvers (Frame K : Type) where
  cartToJnt : CartToJnt Frame K
  solve : Problem K → Solution K

variable {Frame K : Type} [Field K]

/-- The first `numJoints()` entries. -/
def configuration (model : RobotModel K) (values : Nat → K) : List K := (List.range model.numJoints).map values

def problem (model : RobotModel K) (isCollisionFree : List K → Bool) (qStart qGoal : List K) (timeLimitS : K) :
    Problem K :=
  let (qMin, qMax) := model.jointLimits
  { dimension := model.numJoints
    bounds := (List.range model.numJoints).map fun i => (qMin.getD i 0, qMax.getD i 0)
    isValid := isCollisionFree
    start := configuration model fun i => qStart.getD i 0
    goal := configuration model fun i => qGoal.getD i 0
    goalTolerance := 1 / 20 -- `ss.setGoalState(goal, 0.05)`
    timeLimitS }

def runOMPL (model : RobotModel K) (isCollisionFree : List K → Bool) (solve : Problem K → Solution K)
    (qStart qGoal : List K) (timeLimitS : K) : List (List K) :=
  let solution := solve (problem model isCollisionFree qStart qGoal timeLimitS)
  if solution.status.toBool then solution.path.map (configuration model) else []

/-- The trajectory for the callback, or `none` where the loop continues without one. -/
def planRequest (model : RobotModel K) (isCollisionFree : List K → Bool) (request : PlanRequest Frame K)
    (solvers : Solvers Frame K) : Option (Trajectory K) :=
  match model.ik solvers.cartToJnt request.target request.qCurrent with
  | none => none -- IK failed
  | some qGoal =>
    let path := runOMPL model isCollisionFree solvers.solve request.qCurrent qGoal 5
    if path.isEmpty then none -- OMPL planning failed
    else some (fitCubicSpline path request.durationS)

/-- What `solvers` reports for the problem of a request. -/
def solution (model : RobotModel K) (isCollisionFree : List K → Bool) (request : PlanRequest Frame K) (qGoal : List K)
    (solvers : Solvers Frame K) : Solution K :=
  solvers.solve (problem model isCollisionFree request.qCurrent qGoal 5)

end RoboticsRt

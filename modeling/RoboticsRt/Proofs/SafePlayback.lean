import RoboticsRt.Proofs.DemoSpeed
import RoboticsRt.Proofs.SceneVerdict

/-! What collision checking says about the motion. OMPL's promise is about the states of its
path; the executor plays a curve through them. At a waypoint the robot touches nothing, and
between two it is never further from one of them than three quarters of a joint's longest step. -/

namespace RoboticsRt.PandaDemo
open Transition

variable {Client K : Type} [Field K] [LinearOrder K] [IsStrictOrderedRing K] [DecidableEq Client]

variable {Target Bvh : Type}

end RoboticsRt.PandaDemo

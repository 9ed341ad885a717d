import RoboticsRt.Proofs.LatestRequest
import RoboticsRt.Proofs.PlannerStop
import RoboticsRt.Proofs.HoldPosition
import RoboticsRt.Proofs.GoalReached
import RoboticsRt.Proofs.HandOver
import RoboticsRt.Proofs.BroadPhase
import RoboticsRt.Proofs.CloneCoverage
import RoboticsRt.Proofs.SretNullChecks
import RoboticsRt.Library.Tridiagonal
import RoboticsRt.Proofs.SecondDeriv
import RoboticsRt.Proofs.JointLimits
import RoboticsRt.Proofs.Velocity
import RoboticsRt.Proofs.PairIndex
import RoboticsRt.Urdf
import RoboticsRt.UrdfRobotModel
import RoboticsRt.Proofs.AttachedLimits
import RoboticsRt.RobotScene
import RoboticsRt.Proofs.PairStreams
import RoboticsRt.Proofs.PureChecker
import RoboticsRt.Proofs.ChainPoses
import RoboticsRt.Library.Tally
import RoboticsRt.Ubsan.Count
import RoboticsRt.Library.Llvm.ConstantRange
import RoboticsRt.Proofs.CountFreshness
import RoboticsRt.Ubsan.OperandBound
import RoboticsRt.Lifecycle
import RoboticsRt.Proofs.OneWorker
import RoboticsRt.Proofs.OperandRange
import RoboticsRt.Proofs.Interpolation
import RoboticsRt.Proofs.TimeScaling
import RoboticsRt.Proofs.CheckedFit
import RoboticsRt.Proofs.FitTotality
import RoboticsRt.Proofs.IkLimits
import RoboticsRt.Library.BranchAndBound
import RoboticsRt.Proofs.AdjacencyKeys
import RoboticsRt.Proofs.CrossOverlap
import RoboticsRt.Proofs.DistancePruning
import RoboticsRt.GpuCommands
import RoboticsRt.Proofs.BufferCapacity
import RoboticsRt.Library.Llvm.Phis
import RoboticsRt.Proofs.PhiEntries
import RoboticsRt.Proofs.FreedChecks
import RoboticsRt.Proofs.ThomasSweep
import RoboticsRt.Proofs.Schedule
import RoboticsRt.Proofs.LoopEntry
import RoboticsRt.Library.Llvm.Overflow
import RoboticsRt.Ubsan.Removable
import RoboticsRt.Proofs.Precision
import RoboticsRt.Proofs.OverflowBits
import RoboticsRt.Proofs.OverflowOptimize
import RoboticsRt.Proofs.ProvenDead
import RoboticsRt.Proofs.Shrinking
import RoboticsRt.Ubsan.FunctionPasses
import RoboticsRt.Proofs.PassPipeline
import RoboticsRt.Proofs.PipelineBehaviour
import RoboticsRt.PandaDemo
import RoboticsRt.Proofs.DemoRuns
import RoboticsRt.Proofs.DemoArrival
import RoboticsRt.Library.Piecewise
import RoboticsRt.Proofs.DemoSpeed
import RoboticsRt.Proofs.SafePlayback

import RoboticsRt.Library.BinaryFloat
import RoboticsRt.Trajectory

/-! The fit as it runs (`trajectory.cpp`), over whatever arithmetic there is and with the
sizes in an `int`. It stops where the program would divide by zero, read past the end of a
vector or resize one to a negative length; in `Trajectory.lean` none of that shows. -/

namespace RoboticsRt

def binary64 : BinaryFloat.Format := ⟨53, -1074, 1024, by decide⟩

abbrev Double := BinaryFloat.Value binary64

/-- What a vector's size is once it is in an `int`. -/
def toInt (size : Nat) : Int := Int.bmod size (2 ^ 32)

inductive Fault where
  | zeroDivisor
  | outOfRange
  | lengthError
deriving DecidableEq

namespace Checked
variable {D : Type} [Add D] [Sub D] [Mul D] [Div D] [IntCast D] [DecidableEq D]

def divide (a b : D) : Except Fault D :=
  if b = ((0 : Int) : D) then .error .zeroDivisor else .ok (a / b)

/-- `waypoints[i][j]` -/
def waypoint (waypoints : List (List D)) (j i : Nat) : Except Fault D :=
  match (waypoints.getD i [])[j]? with
  | some y => .ok y
  | none => .error .outOfRange

/-! `step` is `duration_s / (n_wp - 1)`, which the first loop computes again for each knot. -/

def tKnot (step : D) (i : Nat) : D := step * ((i : Int) : D)

def segH (step : D) (i : Nat) : D := tKnot step (i + 1) - tKnot step i

def alpha (step : D) (y : Nat → D) (i : Nat) : Except Fault D := do
  let after ← divide ((3 : Int) : D) (segH step i)
  let before ← divide ((3 : Int) : D) (segH step (i - 1))
  return after * (y (i + 1) - y i) - before * (y i - y (i - 1))

/-- One row of the forward sweep. -/
def sweep (step : D) (y : Nat → D) : Nat → Except Fault (SweepRow D)
  | 0 => return ⟨((1 : Int) : D), ((0 : Int) : D), ((0 : Int) : D)⟩
  | i + 1 => do
    let alpha ← alpha step y (i + 1)
    let prev ← sweep step y i
    let l := ((2 : Int) : D) * (segH step i + segH step (i + 1)) - segH step i * prev.mu
    let mu ← divide (segH step (i + 1)) l
    let z ← divide (alpha - segH step i * prev.z) l
    return ⟨l, mu, z⟩

/-- `backSub k` is `M[n_segments - k]`. -/
def backSub (rows : List (SweepRow D)) : Nat → D
  | 0 => ((0 : Int) : D)
  | k + 1 =>
    let row := rows.getD (rows.length - 1 - k) ⟨((1 : Int) : D), ((0 : Int) : D), ((0 : Int) : D)⟩
    row.z - row.mu * backSub rows k

def fitSegment (step : D) (y m : Nat → D) (i : Nat) : Except Fault (Segment D) := do
  let h := segH step i
  let hInv ← divide ((1 : Int) : D) h
  let bend ← divide (h * (((2 : Int) : D) * m i + m (i + 1))) ((6 : Int) : D)
  let c ← divide (m i) ((2 : Int) : D)
  let d ← divide (m (i + 1) - m i) (((6 : Int) : D) * h)
  return { tStart := tKnot step i, h, coeff := #v[y i, (y (i + 1) - y i) * hInv - bend, c, d] }

/-- The loop body for one degree of freedom. -/
def fitDof (waypoints : List (List D)) (nWp : Nat) (step : D) (j : Nat) : Except Fault (List (Segment D)) := do
  let y ← (List.range nWp).mapM (waypoint waypoints j)
  let y i := y.getD i ((0 : Int) : D)
  let rows ← (List.range (nWp - 1)).mapM (sweep step y)
  let m i := backSub rows (nWp - 1 - i)
  (List.range (nWp - 1)).mapM (fitSegment step y m)

def fitCubicSpline (waypoints : List (List D)) (durationS : D) : Except Fault (Trajectory D) :=
  let nWp := toInt waypoints.length
  if nWp < 2 then .ok ⟨((0 : Int) : D), 0, 0, []⟩
  else if (waypoints.getD 0 []).isEmpty then .ok ⟨((0 : Int) : D), 0, 0, []⟩
  else do
    let nDofs := toInt (waypoints.getD 0 []).length
    let step ← divide durationS ((nWp - 1 : Int) : D)
    if nDofs < 0 then .error .lengthError -- `traj.segments.resize(n_dofs)`
    else do
      let segments ← (List.range nDofs.toNat).mapM (fitDof waypoints nWp.toNat step)
      return { durationS, numDofs := nDofs.toNat, numSegments := nWp.toNat - 1, segments }

end Checked
end RoboticsRt

import Mathlib.Algebra.Field.Defs
import Mathlib.Order.Lattice

/-! Natural cubic spline trajectories (`trajectory.cpp`) in exact arithmetic: `double`
is an ordered field and the arrays the fit fills are functions of their index. -/

namespace RoboticsRt

/-- One cubic piece of one degree of freedom, with coefficients `[a, b, c, d]`. -/
structure Segment (K : Type) where
  tStart : K
  h : K
  coeff : Vector K 4

structure Trajectory (K : Type) where
  durationS : K
  numDofs : Nat
  numSegments : Nat
  segments : List (List (Segment K))

variable {K : Type} [Field K]

instance : Inhabited (Segment K) := ⟨0, 0, #v[0, 0, 0, 0]⟩

/-- A trajectory as its member initializers leave it. -/
def Trajectory.empty : Trajectory K := ⟨0, 0, 0, []⟩

/-- `seg.coeff[0] + seg.coeff[1] * tau + ...` -/
def Segment.at (seg : Segment K) (tau : K) : K :=
  seg.coeff[0] + seg.coeff[1] * tau + seg.coeff[2] * tau * tau + seg.coeff[3] * tau * tau * tau

/-- The derivative of a piece: `b + 2 * c * tau + 3 * d * tau * tau`. -/
def Segment.velocity (seg : Segment K) (tau : K) : K :=
  seg.coeff[1] + (2 : K) * seg.coeff[2] * tau + (3 : K) * seg.coeff[3] * tau * tau

def Segment.acceleration (seg : Segment K) (tau : K) : K := (2 : K) * seg.coeff[2] + (6 : K) * seg.coeff[3] * tau

/-- `segments[j][i]`; the fit makes every row as long as it is read. -/
def Trajectory.segment (traj : Trajectory K) (j i : Nat) : Segment K :=
  (traj.segments.getD j []).getD i default

section Eval
variable [LinearOrder K]

/-- The search loop of `eval`: the first segment whose interval holds `t`, else 0. -/
def Trajectory.segIdx (traj : Trajectory K) (t : K) : Nat :=
  ((List.range traj.numSegments).find? fun i =>
    (traj.segment 0 i).tStart ≤ t ∧
      (i = traj.numSegments - 1 ∨ t < (traj.segment 0 (i + 1)).tStart)).getD 0

def Trajectory.eval (traj : Trajectory K) (t : K) : List K :=
  let t := max 0 (min t traj.durationS)
  if traj.segments.isEmpty || (traj.segments.getD 0 []).isEmpty then
    List.replicate traj.numDofs 0
  else
    let idx := traj.segIdx t
    (List.range traj.numDofs).map fun j =>
      let seg := traj.segment j idx
      seg.at (t - seg.tStart)

end Eval

/-! The fit. `nWp` waypoints make `nWp - 1` segments. -/

section Fit
variable (nWp : Nat) (durationS : K) (y : Nat → K)

/-- `t_knots[i] = (duration_s / (n_wp - 1)) * i` -/
def tKnot (i : Nat) : K := durationS / ((nWp - 1 : Nat) : K) * (i : K)

/-- `h[i] = t_knots[i + 1] - t_knots[i]` -/
def segH (i : Nat) : K := tKnot nWp durationS (i + 1) - tKnot nWp durationS i

/-- The right-hand side; entries the loop does not reach keep 0. -/
def alpha (i : Nat) : K :=
  if 1 ≤ i ∧ i < nWp - 1 then
    3 / segH nWp durationS i * (y (i + 1) - y i) - 3 / segH nWp durationS (i - 1) * (y i - y (i - 1))
  else 0

/-- One row of the forward sweep: `l[i]`, `mu[i]`, `z[i]`. -/
structure SweepRow (K : Type) where
  l : K
  mu : K
  z : K

/-- The forward sweep; rows the loop does not reach keep their initial values. -/
def sweep : Nat → SweepRow K
  | 0 => ⟨1, 0, 0⟩
  | i + 1 =>
    if i + 1 < nWp - 1 then
      let prev := sweep i
      let h := segH nWp durationS
      let l := 2 * (h i + h (i + 1)) - h i * prev.mu
      ⟨l, h (i + 1) / l, (alpha nWp durationS y (i + 1) - h i * prev.z) / l⟩
    else ⟨1, 0, 0⟩

/-- Back substitution, counted from the last waypoint: `backSub k` is `M[n_wp - 1 - k]`. -/
def backSub : Nat → K
  | 0 => 0
  | k + 1 =>
    let row := sweep nWp durationS y (nWp - 2 - k)
    row.z - row.mu * backSub k

/-- `M[i]` -/
def secondDeriv (i : Nat) : K := backSub nWp durationS y (nWp - 1 - i)

def fitSegment (i : Nat) : Segment K :=
  let h := segH nWp durationS i
  let m := secondDeriv nWp durationS y
  let hInv := 1 / h
  { tStart := tKnot nWp durationS i
    h
    coeff := #v[y i, (y (i + 1) - y i) * hInv - h * (2 * m i + m (i + 1)) / 6, m i / 2,
      (m (i + 1) - m i) / (6 * h)] }

end Fit

/-- `waypoints[i][j]` -/
def waypoint (waypoints : List (List K)) (i j : Nat) : K := (waypoints.getD i []).getD j 0

def fitCubicSpline (waypoints : List (List K)) (durationS : K) : Trajectory K :=
  let nWp := waypoints.length
  if nWp < 2 then .empty
  else if (waypoints.getD 0 []).isEmpty then .empty
  else
    let nDofs := (waypoints.getD 0 []).length
    { durationS
      numDofs := nDofs
      numSegments := nWp - 1
      segments := (List.range nDofs).map fun j =>
        (List.range (nWp - 1)).map (fitSegment nWp durationS fun i => waypoint waypoints i j) }

end RoboticsRt

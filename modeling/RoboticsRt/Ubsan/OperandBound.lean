import RoboticsRt.Library.Llvm.ConstantRange

/-! The range of an operand of an overflow check (`boundOverflowOperand` in
`UBSanCountPass.cpp`), from what ScalarEvolution and LazyValueInfo answer about it. -/

namespace RoboticsRt.Ubsan
open Llvm

/-- An affine recurrence: `none` for a step that is no constant, and for an end when the
backedge-taken count could not be computed. -/
structure AddRec (w : Nat) where
  step : Option (BitVec w)
  startRange : ConstantRange w
  -- of a `SCEVUnknown` start: for each predecessor of the header, whether the loop contains it and the range on the edge
  startOnEdges : Option (List (Bool × ConstantRange w))
  endRange : Option (ConstantRange w)

structure Operand (w : Nat) where
  signedRange : ConstantRange w
  guardedRange : Option (ConstantRange w) -- under the guards of its loop
  addRec : Option (AddRec w)

variable {w : Nat}

/-- `StartR`, from the first predecessor outside the loop if ScalarEvolution knows nothing. -/
def AddRec.startR (ar : AddRec w) : ConstantRange w :=
  if ar.startRange.isFullSet then
    match ar.startOnEdges with
    | some edges =>
      match edges.find? fun edge => !edge.1 with
      | some entry => entry.2
      | none => ar.startRange
    | none => ar.startRange
  else ar.startRange

def monotone (step : BitVec w) (startR endR : ConstantRange w) : Bool :=
  if step.msb then endR.getSignedMax.sle startR.getSignedMin else startR.getSignedMax.sle endR.getSignedMin

def Operand.initialRange (V : Operand w) : ConstantRange w :=
  match V.guardedRange with
  | some guarded => V.signedRange.intersectWith guarded
  | none => V.signedRange

def boundOverflowOperand (V : Operand w) : ConstantRange w :=
  let R := V.initialRange
  match V.addRec with
  | none => R
  | some ar =>
    match ar.step, ar.endRange with
    | some step, some endR =>
      let startR := ar.startR
      if !startR.isFullSet && !endR.isFullSet && monotone step startR endR then R.intersectWith (startR.unionWith endR)
      else R
    | _, _ => R

end RoboticsRt.Ubsan

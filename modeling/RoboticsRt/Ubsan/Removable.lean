import RoboticsRt.Library.Llvm.Overflow
import RoboticsRt.Ubsan.OperandBound
import RoboticsRt.Ubsan.Passes

/-! Which overflow checks the two clone-based passes prove dead
(`UBSanSignedOverflowAnalysis`, `CollectRemovableFromClone`). Both straighten the same
clone and ask the same analyses; they differ in the range they take of an operand. -/

namespace RoboticsRt.Ubsan
open Llvm

def rangesProveNoOverflow {w : Nat} (op : BinaryOp) (signed : Bool) (lhs rhs : ConstantRange w) : Bool :=
  let res :=
    match op, signed with
    | .add, true => lhs.signedAddMayOverflow rhs
    | .add, false => lhs.unsignedAddMayOverflow rhs
    | .sub, true => lhs.signedSubMayOverflow rhs
    | .sub, false => lhs.unsignedSubMayOverflow rhs
    | .mul, true => .mayOverflow
    | .mul, false => lhs.unsignedMulMayOverflow rhs
  res == .neverOverflows

/-- Every range an analysis answers with is one. -/
structure AddRec.Valid {w : Nat} (ar : AddRec w) : Prop where
  startRange : ar.startRange.Valid
  startOnEdges : ∀ edges ∈ ar.startOnEdges, ∀ edge ∈ edges, edge.2.Valid
  endRange : ∀ endR ∈ ar.endRange, endR.Valid

structure Operand.Valid {w : Nat} (V : Operand w) : Prop where
  signedRange : V.signedRange.Valid
  guardedRange : ∀ guarded ∈ V.guardedRange, guarded.Valid
  addRec : ∀ ar ∈ V.addRec, ar.Valid

/-- The operands of a check in the clone, of an integer type. -/
structure Operands where
  width : Nat
  positive : 0 < width
  lhs : Operand width
  rhs : Operand width
  lhsValid : lhs.Valid
  rhsValid : rhs.Valid

/-- The opcode of the clone's twin of a check, unless it was deleted. -/
def twin (clone : Function) (check : Id) : Option (BinaryOp × Bool) :=
  match (clone.blocks.flatMap fun block => block.2.insts).find? fun inst => inst.id == check with
  | some inst =>
    match inst.op with
    | .withOverflow op signed => some (op, signed)
    | _ => none
  | none => none

/-- The checks whose twin has no overflow on the ranges taken of its operands. -/
def provenOnClone (range : (w : Nat) → Operand w → ConstantRange w) (F : Function) (answers : Id → Operands) :
    Option (List Id) := do
  let clone ← straightenOverflowBranches F
  return (collectOverflowInstructions F).filter fun check =>
    match twin clone check with
    | some wo =>
      rangesProveNoOverflow wo.1 wo.2 (range _ (answers check).lhs) (range _ (answers check).rhs)
    | none => false

/-- `UBSanSignedOverflowAnalysis::run`: the checks it reports as removable. -/
def reportRemovable (F : Function) (answers : Id → Operands) : Option (List Id) :=
  provenOnClone (fun _ V => V.signedRange) F answers

def collectRemovableFromClone (F : Function) (answers : Id → Operands) : Option (List Id) :=
  provenOnClone (fun _ V => boundOverflowOperand V) F answers

end RoboticsRt.Ubsan

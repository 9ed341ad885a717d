import RoboticsRt.Library.Llvm.Edit

/-! The sanitizer passes (`UBSanCountPass.cpp`): `straightenOverflowBranches`, run on a
throwaway clone, and `UBSanOptimizeSretNullChecks`. A list collected before the rewriting
starts may outlive its entries; touching a freed instruction is undefined and the pass has
no result. A clone keeps the names, so an instruction's twin is the one with its name. -/

namespace RoboticsRt.Ubsan
open Llvm

def kUBSanPrefix : String := "__ubsan_handle_"

def isUBSanSite : Opcode → Bool
  | .call (some callee) => callee.startsWith kUBSanPrefix
  | _ => false

def hasUBSanSite (block : BasicBlock) : Bool := block.insts.any fun inst => isUBSanSite inst.op

def isHandler (F : Function) (label : Label) : Bool := (F.block? label).any hasUBSanSite

/-- The handler and the continue successor of a conditional branch. With two handlers, or
with none, one of the two stays null. -/
def guard (F : Function) (label : Label) : Option (Label × Label) :=
  match (F.block? label).map BasicBlock.term with
  | some (.condBr _ ifTrue ifFalse) =>
    match isHandler F ifTrue, isHandler F ifFalse with
    | true, false => some (ifTrue, ifFalse)
    | false, true => some (ifFalse, ifTrue)
    | _, _ => none
  | _ => none

/-- What both passes do to the branch at the end of a block with a check. -/
def straightenBranch (F : Function) (label : Label) : Function :=
  match guard F label with
  | none => F
  | some (handlerBB, contBB) =>
    let rewired := F.replaceBranch label contBB
    if rewired.predEmpty handlerBB then rewired.deleteDeadBlock handlerBB else rewired

def isWithOverflow : Opcode → Bool
  | .withOverflow _ _ => true
  | _ => false

/-- Every instruction of the function that satisfies a test, in block order. -/
def collect (F : Function) (test : Inst → Bool) : List Id :=
  F.blocks.flatMap fun (_, block) => (block.insts.filter test).map Inst.id

def collectOverflowInstructions (F : Function) : List Id :=
  collect F fun inst => isWithOverflow inst.op

def straightenOverflowBranch (F : Function) (wo : Id) : Option Function :=
  (F.parent wo).map (straightenBranch F)

def straightenOverflowBranches (F : Function) : Option Function :=
  (collectOverflowInstructions F).foldlM straightenOverflowBranch F

/-- One operand is the null pointer and one carries the sret attribute. -/
def comparesSretToNull (F : Function) (icmp : Inst) : Bool :=
  icmp.operands.any (· == .const .null) &&
    icmp.operands.any fun
      | .arg index => F.sret.getD index false
      | _ => false

def nullChecks (F : Function) : List Id :=
  collect F fun inst => inst.op == .icmp .eq && comparesSretToNull F inst

def straightenHandlerBranch (F : Function) (label : Label) : Function := straightenBranch F label

def optimizeSretNullCheck (F : Function) (icmp : Id) : Option Function := do
  let label ← F.parent icmp
  let straight := straightenHandlerBranch F label
  let _ ← straight.parent icmp
  return (straight.replaceAllUsesWith [icmp] (.bool false)).eraseInst icmp

/-- `UBSanOptimizeSretNullChecks::run`. -/
def optimizeSretNullChecks (F : Function) : Option Function :=
  (nullChecks F).foldlM optimizeSretNullCheck F

end RoboticsRt.Ubsan

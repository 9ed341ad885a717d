import RoboticsRt.Ubsan.Count
import RoboticsRt.Ubsan.Removable

/-! The pass that takes out what the clone proved dead (`UBSanSignedOverflowOptimize`), and the
null-check pass with what it returns to the pass manager. The check itself stays; only its
overflow bit is folded. -/

namespace RoboticsRt.Ubsan
open Llvm

deriving instance DecidableEq for PreservedAnalyses

/-- The users of a check that extract its overflow bit; an `extractvalue` has one operand. -/
def overflowBits (F : Function) (wo : Id) : List Id :=
  collect F fun inst => inst.op == .extractValue 1 && inst.operands == [.inst wo]

/-- A function under a pass, and its flag `Changed`. -/
structure Rewriting where
  function : Function
  changed : Bool

/-- `EV->replaceAllUsesWith(false); EV->eraseFromParent(); Changed = true;` -/
def Rewriting.foldBit (state : Rewriting) (ev : Id) : Rewriting where
  function := (state.function.replaceAllUsesWith [ev] (.bool false)).eraseInst ev
  changed := true

/-- The users are those the check has when its turn comes. -/
def Rewriting.foldBits (state : Rewriting) (wo : Id) : Rewriting :=
  (overflowBits state.function wo).foldl Rewriting.foldBit state

/-- The loop over the checks. -/
def foldRemovable (removable originalChecks : List Id) (F : Function) : Rewriting :=
  originalChecks.foldl (fun state wo => if removable.contains wo then state.foldBits wo else state) ⟨F, false⟩

/-- `UBSanSignedOverflowOptimize::run`: the function after the pass and what it preserves. -/
def signedOverflowOptimize (F : Function) (answers : Id → Operands) : Option (Function × PreservedAnalyses) :=
  if F.blocks.isEmpty then some (F, ⟨true⟩) -- a declaration
  else
    let originalChecks := collectOverflowInstructions F
    if originalChecks.isEmpty then some (F, ⟨true⟩)
    else do
      let removable ← collectRemovableFromClone F answers
      if removable.isEmpty then return (F, ⟨true⟩)
      let result := foldRemovable removable originalChecks F
      return (result.function, ⟨!result.changed⟩)

/-- `UBSanOptimizeSretNullChecks::run` with what it returns: each comparison sets `Changed`. -/
def sretNullChecksRun (F : Function) : Option (Function × PreservedAnalyses) :=
  if F.blocks.isEmpty then some (F, ⟨true⟩)
  else (optimizeSretNullChecks F).map fun G => (G, ⟨(nullChecks F).isEmpty⟩)

end RoboticsRt.Ubsan

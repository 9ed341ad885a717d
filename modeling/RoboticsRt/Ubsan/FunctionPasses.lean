import RoboticsRt.Ubsan.Optimize

/-! The function passes as the plugin registers them (`getUBSanCountPluginInfo`), in any order
and number, under LLVM's pass managers: a manager runs its passes one after another on each
function that has a body, and preserves what all of them preserve. -/

namespace RoboticsRt.Ubsan
open Llvm

deriving instance DecidableEq for Module

/-- What the analyses answer about each function's clone. -/
abbrev Analyses := Function → Id → Operands

/-- The passes that `registerPipelineParsingCallback` knows by name. -/
inductive FunctionPass where
  | signedOverflowOptimize -- `ubsan-signed-overflow-optimize`
  | signedOverflowAnalysis -- `ubsan-signed-overflow-check`
  | optimizeSretNullChecks -- `ubsan-optimize-sret-nullchecks`
  deriving DecidableEq

/-- `UBSanSignedOverflowAnalysis::run`: what it returns. It throws its clone away. -/
def signedOverflowAnalysisRun (F : Function) (answers : Id → Operands) : Option (Function × PreservedAnalyses) :=
  if F.blocks.isEmpty then some (F, ⟨false⟩) -- a declaration, of which it preserves `none`
  else if (collectOverflowInstructions F).isEmpty then some (F, ⟨true⟩)
  else (reportRemovable F answers).map fun _ => (F, ⟨true⟩)

def FunctionPass.run (analyses : Analyses) (F : Function) : FunctionPass → Option (Function × PreservedAnalyses)
  | .signedOverflowOptimize => Ubsan.signedOverflowOptimize F (analyses F)
  | .signedOverflowAnalysis => signedOverflowAnalysisRun F (analyses F)
  | .optimizeSretNullChecks => sretNullChecksRun F

def PreservedAnalyses.intersect (kept more : PreservedAnalyses) : PreservedAnalyses := ⟨kept.all && more.all⟩

/-- `FunctionPassManager::run` -/
def runPasses (analyses : Analyses) : List FunctionPass → Function → Option (Function × PreservedAnalyses)
  | [], F => some (F, ⟨true⟩)
  | pass :: rest, F => do
    let (G, kept) ← pass.run analyses F
    let (H, more) ← runPasses analyses rest G
    return (H, kept.intersect more)

/-- A declaration is left alone. -/
def runOnFunction (analyses : Analyses) (passes : List FunctionPass) (F : Function) :
    Option (Function × PreservedAnalyses) :=
  if F.blocks.isEmpty then some (F, ⟨true⟩) else runPasses analyses passes F

/-- `ModuleToFunctionPassAdaptor::run`, over the functions of a module. -/
def runOnFunctions (analyses : Analyses) (passes : List FunctionPass) :
    List (String × Function) → Option (List (String × Function) × PreservedAnalyses)
  | [] => some ([], ⟨true⟩)
  | (name, F) :: rest => do
    let (G, kept) ← runOnFunction analyses passes F
    let (others, more) ← runOnFunctions analyses passes rest
    return ((name, G) :: others, kept.intersect more)

def runOnModule (analyses : Analyses) (passes : List FunctionPass) (M : Module) : Option (Module × PreservedAnalyses) :=
  (runOnFunctions analyses passes M.functions).map fun (functions, kept) => ({ M with functions }, kept)

/-- What `registerPipelineEarlySimplificationEPCallback` adds, before `SimplifyCFGPass`. -/
def earlySimplification : List FunctionPass := [.signedOverflowOptimize, .optimizeSretNullChecks]

end RoboticsRt.Ubsan

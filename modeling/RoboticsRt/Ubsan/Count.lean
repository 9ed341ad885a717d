import RoboticsRt.Library.Tally
import RoboticsRt.Ubsan.Passes
import Mathlib.Data.BitVec

/-! Counting the sanitizer's sites and printing the counts (`UBSanCountPass.cpp`), under
LLVM's pass manager: it caches an analysis result, and after each pass asks the result
whether it is invalid unless the pass says that it preserves everything. -/

namespace RoboticsRt.Ubsan
open Llvm Std

structure Module where
  name : String
  functions : List (String × Function)

/-- What a pass claims to keep. -/
structure PreservedAnalyses where
  all : Bool

abbrev Unsigned := BitVec 32

structure UBSanCountResult where
  countsByKind : TreeMap String Unsigned

def UBSanCountResult.total (res : UBSanCountResult) : Unsigned := Tally.total res.countsByKind

def UBSanCountResult.invalidate (_ : UBSanCountResult) (_ : Module) (_ : PreservedAnalyses) : Bool := false

/-- The callees of the module's sites, in the order the analysis meets them. -/
def siteNames (M : Module) : List String :=
  M.functions.flatMap fun (_, F) => F.blocks.flatMap fun (_, block) => block.insts.filterMap fun inst =>
    match inst.op with
    | .call (some callee) => if isUBSanSite inst.op then some callee else none
    | _ => none

/-- `UBSanCountAnalysis::run`. -/
def countSites (M : Module) : UBSanCountResult := ⟨Tally.tally (siteNames M)⟩

inductive Line where
  | total (moduleName : String) (sites : Unsigned) -- `[ubsan-count] NAME: N site(s)`
  | kind (name : String) (count : Unsigned) -- `  NAME: N`

/-- What the printer writes of a result. -/
def printResult (M : Module) (res : UBSanCountResult) : List Line :=
  if res.total = 0 then []
  else .total M.name res.total :: res.countsByKind.toList.map fun (name, count) => .kind name count

/-! The pipeline. -/

inductive Pass where
  | transform (run : Module → Module × PreservedAnalyses)
  | printer

/-- The module and the cached result, if any. -/
structure Pipeline where
  module : Module
  cached : Option UBSanCountResult

/-- `getResult<UBSanCountAnalysis>` -/
def Pipeline.getResult (state : Pipeline) : UBSanCountResult := state.cached.getD (countSites state.module)

/-- The manager's `invalidate`. -/
def Pipeline.invalidate (state : Pipeline) (preserved : PreservedAnalyses) : Pipeline :=
  if preserved.all then state
  else { state with cached := state.cached.filter fun res => !res.invalidate state.module preserved }

/-- One pass: what is printed and the state after it. -/
def Pipeline.run (state : Pipeline) : Pass → Option (List Line) × Pipeline
  | .transform run =>
    let (module, preserved) := run state.module
    (none, { state with module }.invalidate preserved)
  | .printer =>
    let res := state.getResult
    (some (printResult state.module res), { state with cached := some res }.invalidate ⟨true⟩)

/-- The modules the printer runs on, each with what is printed. -/
def printed : List Pass → Pipeline → List (Module × List Line)
  | [], _ => []
  | pass :: rest, state =>
    let (lines, next) := state.run pass
    (lines.toList.map fun text => (state.module, text)) ++ printed rest next

end RoboticsRt.Ubsan

import RoboticsRt.Library.Transition

/-! A part of LLVM's IR and its small-step meaning. Functions are in SSA form. Calls, and
instructions left uninspected, are run by a parameter and may have any of several outcomes.
Undefined behaviour has no step. An `invoke` is a call followed by a switch on whether it
unwound. -/

namespace Llvm

abbrev Id := Nat -- the name of an instruction's result

abbrev Label := Nat -- the name of a basic block

inductive Val where
  | int (width : Nat) (bits : BitVec width)
  | ptr (address : BitVec 64)
  | checked (result : Val) (overflow : Bool) -- what a `with.overflow` intrinsic returns
  | poison
  deriving DecidableEq

def Val.bool (b : Bool) : Val := .int 1 (BitVec.ofBool b)

def Val.null : Val := .ptr 0

inductive Operand where
  | const (value : Val)
  | arg (index : Nat)
  | inst (id : Id)
  deriving DecidableEq

inductive BinaryOp where
  | add | sub | mul
  deriving DecidableEq

inductive Predicate where
  | eq | ne | ult | ule | ugt | uge | slt | sle | sgt | sge
  deriving DecidableEq

inductive Opcode where
  | withOverflow (op : BinaryOp) (signed : Bool)
  | extractValue (index : Nat)
  | icmp (pred : Predicate)
  | call (callee : Option String) -- `none` for an indirect call
  | other (name : String) -- arithmetic, casts, memory accesses
  deriving DecidableEq

structure Inst where
  id : Id
  op : Opcode
  operands : List Operand
  deriving DecidableEq

structure Phi where
  id : Id
  incoming : List (Label × Operand)
  deriving DecidableEq

inductive Terminator where
  | br (target : Label)
  | condBr (cond : Operand) (ifTrue ifFalse : Label)
  | switch (cond : Operand) (cases : List (Val × Label)) (default : Label)
  | ret (value : Option Operand)
  | unreachable
  deriving DecidableEq

def Terminator.operands : Terminator → List Operand
  | .condBr cond _ _ | .switch cond _ _ => [cond]
  | .ret value => value.toList
  | .br _ | .unreachable => []

structure BasicBlock where
  phis : List Phi
  insts : List Inst
  term : Terminator
  deriving DecidableEq

structure Function where
  sret : List Bool -- which arguments carry the attribute
  entry : Label
  blocks : List (Label × BasicBlock)
  deriving DecidableEq

def Function.block? (F : Function) (label : Label) : Option BasicBlock := F.blocks.lookup label

def Terminator.successors : Terminator → List Label
  | .br target => [target]
  | .condBr _ ifTrue ifFalse => [ifTrue, ifFalse]
  | .switch _ cases default => cases.map Prod.snd ++ [default]
  | .ret _ | .unreachable => []

/-! Values. -/

def BinaryOp.apply {w : Nat} : BinaryOp → BitVec w → BitVec w → BitVec w
  | .add, a, b => a + b
  | .sub, a, b => a - b
  | .mul, a, b => a * b

def BinaryOp.overflows {w : Nat} : BinaryOp → Bool → BitVec w → BitVec w → Bool
  | .add, true, a, b => a.saddOverflow b
  | .add, false, a, b => a.uaddOverflow b
  | .sub, true, a, b => a.ssubOverflow b
  | .sub, false, a, b => a.usubOverflow b
  | .mul, true, a, b => a.smulOverflow b
  | .mul, false, a, b => a.umulOverflow b

def Predicate.compare {w : Nat} : Predicate → BitVec w → BitVec w → Bool
  | .eq, a, b => a == b
  | .ne, a, b => a != b
  | .ult, a, b => a.ult b
  | .ule, a, b => a.ule b
  | .ugt, a, b => b.ult a
  | .uge, a, b => b.ule a
  | .slt, a, b => a.slt b
  | .sle, a, b => a.sle b
  | .sgt, a, b => b.slt a
  | .sge, a, b => b.sle a

/-- The instructions whose result depends on their operands alone. -/
def Opcode.eval : Opcode → List Val → Option Val
  | .withOverflow op signed, [.int w a, .int w' b] =>
    if same : w' = w then
      some (.checked (.int w (op.apply a (b.cast same))) (op.overflows signed a (b.cast same)))
    else none
  | .withOverflow _ _, [.poison, _] | .withOverflow _ _, [_, .poison] => some .poison
  | .extractValue 0, [.checked result _] => some result
  | .extractValue 1, [.checked _ overflow] => some (.bool overflow)
  | .extractValue _, [.poison] => some .poison
  | .icmp pred, [.int w a, .int w' b] =>
    if same : w' = w then some (.bool (pred.compare a (b.cast same))) else none
  | .icmp pred, [.ptr a, .ptr b] => some (.bool (pred.compare a b))
  | .icmp _, [.poison, _] | .icmp _, [_, .poison] => some .poison
  | _, _ => none

/-! Execution. -/

/-- What an observer sees. -/
inductive Action where
  | call (callee : Option String) (args : List Val) (result : Val)
  | abort (callee : Option String) (args : List Val) -- the callee ended the program
  | ret (value : Option Val)

/-- Callees and uninspected instructions, over memories `M`. -/
structure World (M : Type) where
  call : Option String → List Val → M → Val → M → Prop
  aborts : Option String → List Val → M → Prop
  other : String → List Val → M → Val → M → Prop

variable {M : Type}

/-- One instruction: what is seen, and its value and the memory after it, if it returns. -/
inductive Executes (world : World M) : Opcode → List Val → M → Option Action → Option (Val × M) → Prop where
  | pure {op args value mem} (evaluated : op.eval args = some value) :
      Executes world op args mem none (some (value, mem))
  | call {callee args mem value after} (returned : world.call callee args mem value after) :
      Executes world (.call callee) args mem (some (.call callee args value)) (some (value, after))
  | abort {callee args mem} (aborted : world.aborts callee args mem) :
      Executes world (.call callee) args mem (some (.abort callee args)) none
  | other {name args mem value after} (ran : world.other name args mem value after) :
      Executes world (.other name) args mem none (some (value, after))

abbrev Env := Id → Option Val

def Env.set (env : Env) (id : Id) (value : Val) : Env := fun x => if x = id then some value else env x

def Operand.eval (input : List Val) (env : Env) : Operand → Option Val
  | .const value => some value
  | .arg index => input[index]?
  | .inst id => env id

def evalAll (input : List Val) (env : Env) : List Operand → Option (List Val)
  | [] => some []
  | operand :: rest => do
    let value ← operand.eval input env
    let values ← evalAll input env rest
    return value :: values

/-- The PHI nodes of a block entered from `pred`: all read the values `old` before the jump. -/
def assign (input : List Val) (old : Env) (pred : Label) : List Phi → Env → Option Env
  | [], env => some env
  | phi :: rest, env => do
    let operand ← phi.incoming.lookup pred
    let value ← operand.eval input old
    assign input old pred rest (env.set phi.id value)

/-- Where a terminator jumps. -/
def Terminator.goto (input : List Val) (env : Env) : Terminator → Option Label
  | .br target => some target
  | .condBr cond ifTrue ifFalse =>
    match cond.eval input env with
    | some (.int 1 b) => some (if b = 1#1 then ifTrue else ifFalse)
    | _ => none
  | .switch cond cases default =>
    match cond.eval input env with
    | some (.int w b) => some ((cases.lookup (.int w b)).getD default)
    | _ => none
  | .ret _ | .unreachable => none

/-- Inside block `label`, before the instructions `rest`. -/
structure State (M : Type) where
  label : Label
  rest : List Inst
  env : Env
  mem : M

inductive Config (M : Type) where
  | running (state : State M)
  | returned
  | aborted

/-- What is left of a run after an instruction. -/
def State.resume (state : State M) (rest : List Inst) (id : Id) : Option (Val × M) → Config M
  | some (value, mem) => .running { state with rest, env := state.env.set id value, mem }
  | none => .aborted

inductive Step (F : Function) (world : World M) (input : List Val) : Config M → Option Action → Config M → Prop where
  | inst {state inst rest args seen result} (next : state.rest = inst :: rest)
      (read : evalAll input state.env inst.operands = some args)
      (executed : Executes world inst.op args state.mem seen result) :
      Step F world input (.running state) seen (state.resume rest inst.id result)
  | jump {state block target entered env} (ended : state.rest = []) (here : F.block? state.label = some block)
      (goes : block.term.goto input state.env = some target) (there : F.block? target = some entered)
      (enters : assign input state.env state.label entered.phis state.env = some env) :
      Step F world input (.running state) none (.running ⟨target, entered.insts, env, state.mem⟩)
  | ret {state block value result} (ended : state.rest = []) (here : F.block? state.label = some block)
      (returns : block.term = .ret value) (read : evalAll input state.env value.toList = some result) :
      Step F world input (.running state) (some (.ret result.head?)) .returned

variable {F : Function} {world : World M} {input : List Val}

theorem Step.evaluates {state : State M} {inst : Inst} {rest : List Inst} {args : List Val} {value : Val}
    (next : state.rest = inst :: rest) (read : evalAll input state.env inst.operands = some args)
    (evaluated : inst.op.eval args = some value) :
    Step F world input (.running state) none (.running { state with rest, env := state.env.set inst.id value }) :=
  .inst next read (.pure evaluated)

theorem Step.calls {state : State M} {inst : Inst} {rest : List Inst} {args : List Val} {callee : Option String}
    {value : Val} {mem : M} (next : state.rest = inst :: rest) (op : inst.op = .call callee)
    (read : evalAll input state.env inst.operands = some args) (returned : world.call callee args state.mem value mem) :
    Step F world input (.running state) (some (.call callee args value))
      (.running { state with rest, env := state.env.set inst.id value, mem }) := by
  have executed : Executes world inst.op args state.mem (some (.call callee args value)) (some (value, mem)) := by
    rw [op]
    exact .call returned
  exact .inst next read executed

theorem Step.aborts {state : State M} {inst : Inst} {rest : List Inst} {args : List Val} {callee : Option String}
    (next : state.rest = inst :: rest) (op : inst.op = .call callee)
    (read : evalAll input state.env inst.operands = some args) (aborted : world.aborts callee args state.mem) :
    Step F world input (.running state) (some (.abort callee args)) .aborted := by
  have executed : Executes world inst.op args state.mem (some (.abort callee args)) none := by
    rw [op]
    exact .abort aborted
  exact .inst next read executed

theorem Step.jumps {state : State M} {block entered : BasicBlock} {target : Label} {rest : List Inst} {env : Env}
    (ended : state.rest = []) (here : F.block? state.label = some block)
    (goes : block.term.goto input state.env = some target) (there : F.block? target = some entered)
    (enters : assign input state.env state.label entered.phis state.env = some env) (first : entered.insts = rest) :
    Step F world input (.running state) none (.running ⟨target, rest, env, state.mem⟩) :=
  first ▸ .jump ended here goes there enters

/-- Executions of `F` on one input. -/
def system (F : Function) (world : World M) (input : List Val) (mem : M) :
    Transition.System (Config M) (Option Action) where
  start config := ∃ block, F.block? F.entry = some block ∧ config = .running ⟨F.entry, block.insts, fun _ => none, mem⟩
  step := Step F world input

/-- An assertion about running states that holds on entry and survives instructions and jumps. -/
theorem reachable_running {mem : M} {holds : State M → Prop}
    (entry : ∀ block, F.block? F.entry = some block → holds ⟨F.entry, block.insts, fun _ => none, mem⟩)
    (inst : ∀ state inst rest args seen value after, (system F world input mem).Reachable (.running state) →
      holds state → state.rest = inst :: rest → evalAll input state.env inst.operands = some args →
      Executes world inst.op args state.mem seen (some (value, after)) →
      holds { state with rest, env := state.env.set inst.id value, mem := after })
    (jump : ∀ state block target entered env, (system F world input mem).Reachable (.running state) →
      holds state → state.rest = [] → F.block? state.label = some block →
      block.term.goto input state.env = some target → F.block? target = some entered →
      assign input state.env state.label entered.phis state.env = some env →
      holds ⟨target, entered.insts, env, state.mem⟩)
    {state : State M} (reached : (system F world input mem).Reachable (.running state)) : holds state := by
  let running (config : Config M) : Prop :=
    (system F world input mem).Reachable config ∧ ∀ state, config = .running state → holds state
  suffices invariant : (system F world input mem).Invariant running from (invariant.reachable reached).2 state rfl
  constructor
  · intro config start
    refine ⟨.initial start, fun state same => ?_⟩
    obtain ⟨block, here, first⟩ := start
    rw [first] at same
    cases same
    exact entry block here
  · intro before event after ⟨reached, held⟩ taken
    refine ⟨reached.step taken, fun state same => ?_⟩
    cases taken with
    | @inst source next rest args seen result first read executed =>
      cases result with
      | none => cases same
      | some result =>
        cases same
        exact inst source next rest args event result.1 result.2 reached (held source rfl) first read executed
    | @jump source block target entered env ended here goes there enters =>
      cases same
      exact jump source block target entered env reached (held source rfl) ended here goes there enters
    | ret => cases same

/-- What is left to run of a block is part of it. -/
theorem reachable_within {mem : M} {state : State M} (reached : (system F world input mem).Reachable (.running state)) :
    ∃ block, F.block? state.label = some block ∧ state.rest ⊆ block.insts := by
  apply reachable_running ?entry ?inst ?jump reached
  case entry => exact fun block here => ⟨block, here, fun _ member => member⟩
  case inst =>
    intro state inst rest _ _ _ _ _ ⟨block, here, inside⟩ next _ _
    exact ⟨block, here, fun _ member => inside (next ▸ .tail _ member)⟩
  case jump =>
    intro state block target entered env _ _ _ _ _ there _
    exact ⟨entered, there, fun _ member => member⟩

end Llvm

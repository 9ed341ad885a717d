import RoboticsRt.Proofs.CloneCoverage
import RoboticsRt.Proofs.OperandRange
import RoboticsRt.Ubsan.Removable

/-! The optimizer against the report. Both ask the same question about the same check, but
the optimizer intersects the plain range with others first, and where an intersection is
two arcs it may be the other range that comes back. -/

namespace RoboticsRt.Ubsan
open Llvm

variable {w : Nat}

theorem rangesProveNoOverflow_empty (op : BinaryOp) (signed : Bool) {lhs rhs : ConstantRange w}
    (empty : (lhs.isEmptySet || rhs.isEmptySet) = true) : rangesProveNoOverflow op signed lhs rhs = false := by
  cases op <;> cases signed <;>
    simp only [rangesProveNoOverflow, ConstantRange.signedAddMayOverflow, ConstantRange.unsignedAddMayOverflow,
      ConstantRange.signedSubMayOverflow, ConstantRange.unsignedSubMayOverflow, ConstantRange.unsignedMulMayOverflow,
      empty, if_true] <;> rfl

/-- A check is proved dead when nothing is empty and no two members overflow; of a signed
multiplication nothing is proved. -/
theorem rangesProveNoOverflow_iff {op : BinaryOp} {signed : Bool} {lhs rhs : ConstantRange w} (positive : 0 < w)
    (hl : lhs.Valid) (hr : rhs.Valid) :
    rangesProveNoOverflow op signed lhs rhs = true ↔
      ¬ (op = .mul ∧ signed = true) ∧ lhs.isEmptySet = false ∧ rhs.isEmptySet = false ∧
        ConstantRange.Safe lhs rhs (op.overflows signed) := by
  cases occupied : lhs.isEmptySet with
  | true =>
    rw [rangesProveNoOverflow_empty op signed (by rw [occupied, Bool.true_or])]
    simp only [Bool.false_eq_true, Bool.true_eq_false, false_and, and_false]
  | false =>
    cases occupied' : rhs.isEmptySet with
    | true =>
      rw [rangesProveNoOverflow_empty op signed (by rw [occupied', Bool.or_true])]
      simp only [Bool.false_eq_true, Bool.true_eq_false, false_and, and_false]
    | false =>
      simp only [rangesProveNoOverflow, beq_iff_eq, true_and]
      cases op with
      | add =>
        cases signed with
        | true =>
          have never := ConstantRange.signedAddMayOverflow_never positive hl hr occupied occupied'
          exact never.trans (and_iff_right (by decide)).symm
        | false =>
          have never := ConstantRange.unsignedAddMayOverflow_never positive hl hr occupied occupied'
          exact never.trans (and_iff_right (by decide)).symm
      | sub =>
        cases signed with
        | true =>
          have never := ConstantRange.signedSubMayOverflow_never positive hl hr occupied occupied'
          exact never.trans (and_iff_right (by decide)).symm
        | false =>
          have never := ConstantRange.unsignedSubMayOverflow_never positive hl hr occupied occupied'
          exact never.trans (and_iff_right (by decide)).symm
      | mul =>
        cases signed with
        | true => simp
        | false =>
          have never := ConstantRange.unsignedMulMayOverflow_never positive hl hr occupied occupied'
          exact never.trans (and_iff_right (by decide)).symm

/-! What is left of an operand's range. -/

def Operand.narrowing (V : Operand w) : Option (ConstantRange w) :=
  V.addRec.bind fun ar => ar.step.bind fun step => ar.endRange.bind fun endR =>
    if !ar.startR.isFullSet && !endR.isFullSet && monotone step ar.startR endR then some (ar.startR.unionWith endR)
    else none

/-- What an intersection leaves: the common numbers, or a whole range in place of two arcs. -/
def Remains (r cr : ConstantRange w) (first : BitVec w → Prop) (v : BitVec w) : Prop :=
  first v ∧ cr.contains v = true ∨ ConstantRange.Swaps r cr ∧ cr.contains v = true ∨ ConstantRange.Keeps r cr ∧ first v

def Operand.Guarded (V : Operand w) (v : BitVec w) : Prop :=
  match V.guardedRange with
  | some guarded => Remains V.signedRange guarded (fun v => V.signedRange.contains v = true) v
  | none => V.signedRange.contains v = true

def Operand.Leaves (V : Operand w) (v : BitVec w) : Prop :=
  match V.narrowing with
  | some union => Remains V.initialRange union V.Guarded v
  | none => V.Guarded v

theorem boundOverflowOperand_eq (V : Operand w) :
    boundOverflowOperand V =
      match V.narrowing with
      | some union => V.initialRange.intersectWith union
      | none => V.initialRange := by
  unfold boundOverflowOperand Operand.narrowing
  cases V.addRec with
  | none => rfl
  | some ar =>
    dsimp only [Option.bind_some]
    cases ar.step with
    | none => rfl
    | some step =>
      cases ar.endRange with
      | none => rfl
      | some endR =>
        dsimp only [Option.bind_some]
        split_ifs <;> rfl

theorem Operand.guarded_iff {V : Operand w} (positive : 0 < w) (valid : V.Valid) (v : BitVec w) :
    V.initialRange.contains v = true ↔ V.Guarded v := by
  unfold Operand.initialRange Operand.Guarded
  cases guards : V.guardedRange with
  | none => rfl
  | some guarded =>
    exact ConstantRange.contains_intersectWith_iff valid.signedRange (valid.guardedRange guarded guards)
      (ConstantRange.wide_of_pos positive) v

theorem Operand.initialRange_valid {V : Operand w} (valid : V.Valid) : V.initialRange.Valid := by
  unfold Operand.initialRange
  cases guards : V.guardedRange with
  | none => exact valid.signedRange
  | some guarded => exact valid.signedRange.intersectWith (valid.guardedRange guarded guards)

theorem AddRec.startR_valid {ar : AddRec w} (valid : ar.Valid) : ar.startR.Valid := by
  unfold AddRec.startR
  split_ifs
  · cases edges : ar.startOnEdges with
    | none => exact valid.startRange
    | some edges' =>
      dsimp only
      cases entry : edges'.find? fun edge => !edge.1 with
      | none => exact valid.startRange
      | some edge => exact valid.startOnEdges edges' edges edge (List.mem_of_find?_eq_some entry)
  · exact valid.startRange

theorem Operand.narrowing_valid {V : Operand w} (valid : V.Valid) {union : ConstantRange w}
    (narrowed : V.narrowing = some union) : union.Valid := by
  unfold Operand.narrowing at narrowed
  simp only [Option.bind_eq_some_iff, Option.ite_none_right_eq_some, Option.some.injEq] at narrowed
  obtain ⟨ar, recurrence, step, _, endR, counted, _, rfl⟩ := narrowed
  have known := valid.addRec ar recurrence
  exact (AddRec.startR_valid known).unionWith (known.endRange endR counted)

theorem boundOverflowOperand_valid {V : Operand w} (valid : V.Valid) : (boundOverflowOperand V).Valid := by
  rw [boundOverflowOperand_eq]
  cases narrowed : V.narrowing with
  | none => exact Operand.initialRange_valid valid
  | some union => exact (Operand.initialRange_valid valid).intersectWith (Operand.narrowing_valid valid narrowed)

theorem Operand.leaves_iff {V : Operand w} (positive : 0 < w) (valid : V.Valid) (v : BitVec w) :
    (boundOverflowOperand V).contains v = true ↔ V.Leaves v := by
  rw [boundOverflowOperand_eq, Operand.Leaves]
  cases narrowed : V.narrowing with
  | none => exact Operand.guarded_iff positive valid v
  | some union =>
    dsimp only
    rw [ConstantRange.contains_intersectWith_iff (Operand.initialRange_valid valid) (Operand.narrowing_valid valid narrowed)
      (ConstantRange.wide_of_pos positive), Operand.guarded_iff positive valid]
    rfl

/-- No intersection gives up its first range for the other. -/
structure Operand.Steady (V : Operand w) : Prop where
  guards : ∀ guarded ∈ V.guardedRange, ¬ ConstantRange.Swaps V.signedRange guarded
  ends : ∀ union ∈ V.narrowing, ¬ ConstantRange.Swaps V.initialRange union

theorem Operand.Guarded.plain {V : Operand w} {v : BitVec w} (left : V.Guarded v) (steady : V.Steady) :
    V.signedRange.contains v = true := by
  unfold Operand.Guarded at left
  cases known : V.guardedRange with
  | none =>
    rw [known] at left
    exact left
  | some guarded =>
    rw [known] at left
    rcases left with both | swapped | kept
    · exact both.1
    · exact absurd swapped.1 (steady.guards guarded known)
    · exact kept.2

theorem Operand.Leaves.plain {V : Operand w} {v : BitVec w} (left : V.Leaves v) (steady : V.Steady) :
    V.signedRange.contains v = true := by
  unfold Operand.Leaves at left
  cases narrowed : V.narrowing with
  | none =>
    rw [narrowed] at left
    exact left.plain steady
  | some union =>
    rw [narrowed] at left
    rcases left with both | swapped | kept
    · exact both.1.plain steady
    · exact absurd swapped.1 (steady.ends union narrowed)
    · exact kept.2.plain steady

/-! The two passes. -/

variable {F : Function} {answers : Id → Operands} {check : Id}

theorem mem_provenOnClone {range : (w : Nat) → Operand w → ConstantRange w} :
    (∃ proven, provenOnClone range F answers = some proven ∧ check ∈ proven) ↔
      ∃ clone wo, straightenOverflowBranches F = some clone ∧ check ∈ collectOverflowInstructions F ∧
        twin clone check = some wo ∧
        rangesProveNoOverflow wo.1 wo.2 (range _ (answers check).lhs) (range _ (answers check).rhs) = true := by
  unfold provenOnClone
  cases straight : straightenOverflowBranches F with
  | none => simp
  | some clone =>
    simp only [Option.bind_eq_bind, Option.bind_some, pure, Option.some.injEq, exists_eq_left', List.mem_filter]
    constructor
    · intro ⟨collected, proves⟩
      cases found : twin clone check with
      | none =>
        rw [found] at proves
        cases proves
      | some wo =>
        rw [found] at proves
        exact ⟨clone, wo, rfl, collected, found, proves⟩
    · rintro ⟨_, wo, rfl, collected, found, proves⟩
      refine ⟨collected, ?_⟩
      rw [found]
      exact proves

def Reported (F : Function) (answers : Id → Operands) (check : Id) : Prop :=
  ∃ proven, reportRemovable F answers = some proven ∧ check ∈ proven

def Removed (F : Function) (answers : Id → Operands) (check : Id) : Prop :=
  ∃ proven, collectRemovableFromClone F answers = some proven ∧ check ∈ proven

/-- Something is left of both operands, and no number that was let in from outside the
plain range overflows with a number left for the other operand. -/
structure Operands.Precise (operands : Operands) (op : BinaryOp) (signed : Bool) : Prop where
  lhs : ∃ a, operands.lhs.Leaves a
  rhs : ∃ b, operands.rhs.Leaves b
  letIn : ∀ a b, operands.lhs.Leaves a → operands.rhs.Leaves b →
    operands.lhs.signedRange.contains a = false ∨ operands.rhs.signedRange.contains b = false →
    op.overflows signed a b = false

theorem narrowed_proves_iff {operands : Operands} {op : BinaryOp} {signed : Bool}
    (plain : rangesProveNoOverflow op signed operands.lhs.signedRange operands.rhs.signedRange = true) :
    rangesProveNoOverflow op signed (boundOverflowOperand operands.lhs) (boundOverflowOperand operands.rhs) = true ↔
      operands.Precise op signed := by
  have positive := operands.positive
  have validLhs := boundOverflowOperand_valid operands.lhsValid
  have validRhs := boundOverflowOperand_valid operands.rhsValid
  obtain ⟨handled, _, _, safe⟩ :=
    (rangesProveNoOverflow_iff positive operands.lhsValid.signedRange operands.rhsValid.signedRange).mp plain
  rw [rangesProveNoOverflow_iff positive validLhs validRhs, ConstantRange.occupied_iff positive validLhs,
    ConstantRange.occupied_iff positive validRhs, ConstantRange.Safe]
  simp only [Operand.leaves_iff positive operands.lhsValid, Operand.leaves_iff positive operands.rhsValid]
  constructor
  · intro ⟨_, lhs, rhs, all⟩
    exact ⟨lhs, rhs, fun a b first second _ => all a b first second⟩
  · intro precise
    refine ⟨handled, precise.lhs, precise.rhs, ?_⟩
    intro a b first second
    cases inside : operands.lhs.signedRange.contains a with
    | false => exact precise.letIn a b first second (.inl inside)
    | true =>
      cases inside' : operands.rhs.signedRange.contains b with
      | false => exact precise.letIn a b first second (.inr inside')
      | true => exact safe a b inside inside'

theorem removed_iff (reported : Reported F answers check) :
    Removed F answers check ↔
      ∀ clone wo, straightenOverflowBranches F = some clone → twin clone check = some wo →
        (answers check).Precise wo.1 wo.2 := by
  obtain ⟨clone, wo, straight, collected, found, plain⟩ := mem_provenOnClone.mp reported
  unfold Removed collectRemovableFromClone
  rw [mem_provenOnClone]
  constructor
  · rintro ⟨clone', wo', straight', _, found', narrowed⟩ _ _ again same
    rw [straight] at straight' again
    cases straight'
    cases again
    rw [found] at found' same
    cases found'
    cases same
    exact (narrowed_proves_iff plain).mp narrowed
  · intro precise
    exact ⟨clone, wo, straight, collected, found, (narrowed_proves_iff plain).mpr (precise clone wo straight found)⟩

theorem removed_of_steady (reported : Reported F answers check) (lhs : (answers check).lhs.Steady)
    (rhs : (answers check).rhs.Steady) (left : ∃ a, (answers check).lhs.Leaves a)
    (left' : ∃ b, (answers check).rhs.Leaves b) : Removed F answers check := by
  apply (removed_iff reported).mpr
  intro clone wo _ _
  refine ⟨left, left', ?_⟩
  intro a b first second outside
  rw [first.plain lhs, second.plain rhs] at outside
  simp at outside

/-- An intersection of two arcs may be no arc. LLVM then returns one of the two, and numbers from
outside the plain range come back in. The optimizer narrows where the report does not, so it can
lose a check the report proves dead. -/
theorem as_precise_iff (F : Function) (answers : Id → Operands) (check : Id) :
    (Reported F answers check → Removed F answers check) ↔
      (Reported F answers check → ∀ clone wo, straightenOverflowBranches F = some clone → twin clone check = some wo →
        (answers check).Precise wo.1 wo.2) :=
  forall_congr' removed_iff

/-! A loop that counts from `first` up and ends before `stop`, and its executions in the clone. -/

def nextCount : Inst := ⟨11, .withOverflow .add true, [.inst 10, .const (.int 8 1)]⟩

def countSum : Inst := ⟨12, .extractValue 0, [.inst 11]⟩

def countBit : Inst := ⟨13, .extractValue 1, [.inst 11]⟩

def countTest (stop : BitVec 8) : Inst := ⟨14, .icmp .eq, [.inst 12, .const (.int 8 stop)]⟩

def counting (first stop : BitVec 8) (last : Terminator) : Function where
  sret := []
  entry := 0
  blocks := [
    (0, { phis := [], insts := [], term := .br 1 }),
    (1, { phis := [⟨10, [(0, .const (.int 8 first)), (3, .inst 12)]⟩], insts := [nextCount, countSum, countBit],
          term := .condBr (.inst 13) 4 3 }),
    (4, { phis := [], insts := [⟨15, .call (some "__ubsan_handle_add_overflow"), []⟩], term := last }),
    (3, { phis := [], insts := [countTest stop], term := .condBr (.inst 14) 2 1 }),
    (2, { phis := [], insts := [], term := .ret none })]

def countingClone (first stop : BitVec 8) : Function where
  sret := []
  entry := 0
  blocks := [
    (0, { phis := [], insts := [], term := .br 1 }),
    (1, { phis := [⟨10, [(0, .const (.int 8 first)), (3, .inst 12)]⟩], insts := [nextCount, countSum, countBit],
          term := .br 3 }),
    (3, { phis := [], insts := [countTest stop], term := .condBr (.inst 14) 2 1 }),
    (2, { phis := [], insts := [], term := .ret none })]

section Counting
variable {M : Type} {world : World M} {input : List Val} {mem : M} {first stop : BitVec 8} {n : Nat}

private theorem iterate_succ (first : BitVec 8) (k : Nat) : iterate first 1 k + 1 = iterate first 1 (k + 1) := by
  simp [iterate, BitVec.ofNat_add, BitVec.add_assoc]

/-- Where an execution of the clone can be, and what it knows there: the counter is one of the
first `n + 1` values of its recurrence. -/
private inductive CountsUp (first stop : BitVec 8) (n : Nat) : Label → List Inst → Env → Prop where
  | entry (env) : CountsUp first stop n 0 [] env
  | check {env k} (early : k ≤ n) (now : env 10 = some (.int 8 (iterate first 1 k))) :
      CountsUp first stop n 1 [nextCount, countSum, countBit] env
  | sum {env k bit} (early : k ≤ n) (sum : env 11 = some (.checked (.int 8 (iterate first 1 (k + 1))) bit)) :
      CountsUp first stop n 1 [countSum, countBit] env
  | bit {env k bit} (early : k ≤ n) (sum : env 11 = some (.checked (.int 8 (iterate first 1 (k + 1))) bit))
      (next : env 12 = some (.int 8 (iterate first 1 (k + 1)))) : CountsUp first stop n 1 [countBit] env
  | latch {env k} (early : k ≤ n) (next : env 12 = some (.int 8 (iterate first 1 (k + 1)))) : CountsUp first stop n 1 [] env
  | test {env k} (early : k ≤ n) (next : env 12 = some (.int 8 (iterate first 1 (k + 1)))) :
      CountsUp first stop n 3 [countTest stop] env
  | exit {env k} (early : k ≤ n) (next : env 12 = some (.int 8 (iterate first 1 (k + 1))))
      (test : env 14 = some (.bool (iterate first 1 (k + 1) == stop))) : CountsUp first stop n 3 [] env
  | done (env) : CountsUp first stop n 2 [] env

private theorem evaluates_to {op : Opcode} {args : List Val} {mem after : M} {seen : Option Action} {value result : Val}
    (executed : Executes world op args mem seen (some (value, after))) (known : op.eval args = some result) :
    value = result := by
  cases executed with
  | pure evaluated => exact Option.some.inj (evaluated.symm.trans known)
  | call _ => cases known
  | other _ => cases known

private theorem CountsUp.inst {label : Label} {inst : Inst} {rest : List Inst} {env : Env} {args : List Val}
    {mem after : M} {seen : Option Action} {value : Val} (holds : CountsUp first stop n label (inst :: rest) env)
    (read : evalAll input env inst.operands = some args) (executed : Executes world inst.op args mem seen (some (value, after))) :
    CountsUp first stop n label rest (env.set inst.id value) := by
  generalize pending : inst :: rest = insts at holds
  cases holds with
  | @check _ k early now =>
    cases pending
    obtain rfl : args = [.int 8 (iterate first 1 k), .int 8 1] := by
      simpa [nextCount, evalAll, Llvm.Operand.eval, now] using read.symm
    obtain rfl := evaluates_to executed (by simp [nextCount, Opcode.eval]; rfl)
    apply CountsUp.sum early
    rw [← iterate_succ]
    rfl
  | sum early sum =>
    cases pending
    obtain rfl : args = _ := by simpa [countSum, evalAll, Llvm.Operand.eval, sum] using read.symm
    obtain rfl := evaluates_to executed rfl
    exact .bit early sum rfl
  | bit early sum next =>
    cases pending
    obtain rfl : args = _ := by simpa [countBit, evalAll, Llvm.Operand.eval, sum] using read.symm
    exact .latch early next
  | test early next =>
    cases pending
    obtain rfl : args = _ := by simpa [countTest, evalAll, Llvm.Operand.eval, next] using read.symm
    obtain rfl := evaluates_to executed rfl
    exact .exit early next rfl
  | _ => cases pending

private theorem CountsUp.jump (ends : iterate first 1 (n + 1) = stop) {label target : Label} {block entered : BasicBlock}
    {env env' : Env} (holds : CountsUp first stop n label [] env)
    (here : (countingClone first stop).block? label = some block) (goes : block.term.goto input env = some target)
    (there : (countingClone first stop).block? target = some entered)
    (enters : assign input env label entered.phis env = some env') : CountsUp first stop n target entered.insts env' := by
  cases holds with
  | entry =>
    cases here
    cases goes
    cases there
    cases enters
    exact .check (Nat.zero_le _) (by simp [iterate, Env.set])
  | latch early next =>
    cases here
    cases goes
    cases there
    cases enters
    exact .test early next
  | @exit _ k early next test =>
    cases here
    simp only [Terminator.goto, Llvm.Operand.eval, test, Val.bool, Option.some.injEq] at goes
    by_cases last : iterate first 1 (k + 1) = stop
    · rw [last, beq_self_eq_true] at goes
      obtain rfl : 2 = target := goes
      cases there
      cases enters
      exact .done _
    · have again : k + 1 ≤ n := by
        by_contra late
        obtain rfl : k = n := by omega
        exact last ends
      rw [beq_eq_false_iff_ne.mpr last] at goes
      obtain rfl : 1 = target := goes
      cases there
      change ((env 12).bind fun value => some (env.set 10 value)) = some env' at enters
      rw [next] at enters
      cases enters
      exact .check again rfl
  | done =>
    cases here
    cases goes

private theorem countsUp (ends : iterate first 1 (n + 1) = stop) {state : State M}
    (reached : (system (countingClone first stop) world input mem).Reachable (.running state)) :
    CountsUp first stop n state.label state.rest state.env := by
  apply reachable_running ?entry ?inst ?jump reached
  case entry =>
    intro block here
    cases here
    exact .entry _
  case inst =>
    intro state inst rest args seen value after _ holds next read executed
    rw [next] at holds
    exact holds.inst read executed
  case jump =>
    intro state block target entered env _ holds ended here goes there enters
    rw [ended] at holds
    exact holds.jump ends here goes there enters

/-- The counter at the check is one of the values of the recurrence, and the other operand is 1. -/
theorem counting_operands (ends : iterate first 1 (n + 1) = stop) {check : Id} {a b : Val}
    (reached : ReachesCheck (countingClone first stop) world input mem check a b) :
    check = 11 ∧ (∃ k ≤ n, a = .int 8 (iterate first 1 k)) ∧ b = .int 8 1 := by
  obtain ⟨state, reached, inst, after, next, named, overflow, read⟩ := reached
  have holds := countsUp ends reached
  obtain ⟨label, rest, env, mem'⟩ := state
  dsimp only at holds next read
  subst next
  cases holds with
  | @check _ k early now =>
    simp only [nextCount, evalAll, Llvm.Operand.eval, now, Option.bind_eq_bind, Option.bind_some, pure,
      Option.some.injEq, List.cons.injEq, and_true] at read
    exact ⟨named.symm, ⟨k, early, read.1.symm⟩, read.2.symm⟩
  | sum => cases overflow
  | bit => cases overflow
  | test => cases overflow

end Counting

/-! Counting from -100 to 100. The plain range of the counter is as tight as can be; start and
end are closer to each other across the sign boundary, so their union runs there. -/

def countUp : Function := counting (-100) 101 .unreachable

def countUpClone : Function := countingClone (-100) 101

theorem countUp_clone : straightenOverflowBranches countUp = some countUpClone := by decide +kernel

def countRecurrence : AddRec 8 := ⟨some 1, ⟨-100, -99⟩, none, some ⟨100, 101⟩⟩

def countOperands : Operands where
  width := 8
  positive := by decide
  lhs := ⟨⟨-100, 101⟩, some ⟨-100, 101⟩, some countRecurrence⟩
  rhs := ⟨⟨1, 2⟩, none, none⟩
  lhsValid := by
    refine ⟨by decide, ?_, ?_⟩
    · rintro _ ⟨⟩
      decide
    · rintro _ ⟨⟩
      refine ⟨by decide, ?_, ?_⟩
      · rintro _ ⟨⟩
      · rintro _ ⟨⟩
        decide
  rhsValid := by
    refine ⟨by decide, ?_, ?_⟩ <;> rintro _ ⟨⟩

theorem count_sound : Sound countOperands.lhs countRecurrence ⟨100, 101⟩ (-100) 1 200 where
  addRec := rfl
  constant := rfl
  counted := rfl
  signedRange := by decide +kernel
  guardedRange guarded known := by
    cases known
    decide +kernel
  first := by decide
  last := by decide

/-- Every answer is sound, the report proves `i + 1` from -100 up to 100, and the optimizer
does not: start and end leave it the range from 100 up to -100. -/
theorem count_kept :
    Sound countOperands.lhs countRecurrence ⟨100, 101⟩ (-100) 1 200 ∧
      (∀ (world : World Unit) input mem a b, ReachesCheck countUpClone world input mem 11 a b →
        (∃ k ≤ 200, a = .int 8 (iterate (-100) 1 k)) ∧ b = .int 8 1) ∧
      countOperands.rhs.signedRange.contains 1 = true ∧
      Reported countUp (fun _ => countOperands) 11 ∧ ¬ Removed countUp (fun _ => countOperands) 11 := by
  refine ⟨count_sound, fun world input mem a b reached => (counting_operands (by decide) reached).2, by decide, ?_, ?_⟩
  · refine mem_provenOnClone.mpr ⟨countUpClone, (.add, true), countUp_clone, ?_, ?_, ?_⟩
    all_goals decide +kernel
  · intro removed
    obtain ⟨clone, wo, straight, _, found, proves⟩ := mem_provenOnClone.mp removed
    rw [countUp_clone] at straight
    cases straight
    have opcode : twin countUpClone 11 = some (.add, true) := by decide +kernel
    rw [opcode] at found
    cases found
    revert proves
    decide +kernel

end RoboticsRt.Ubsan

import RoboticsRt.Library.Llvm.Phis
import RoboticsRt.Library.Llvm.Ssa
import RoboticsRt.Ubsan.OperandBound

/-! The range of a recurrence's start against the entries into its loop. LazyValueInfo's
answer holds on the edge it was asked about, and it is asked about one edge only: the one
from the first predecessor outside the loop. -/

namespace RoboticsRt.Ubsan
open Llvm

/-- A loop with the predecessors of its header, one for every edge, in the order of its uses. -/
structure Loop (F : Function) where
  header : Label
  contains : Label → Bool
  preds : List Label
  edges : ∀ P, preds.count P = F.edges P header

/-- The start of a recurrence: a value defined before the loop, and what the analyses answer about it. -/
structure Start (w : Nat) where
  value : Llvm.Operand
  isUnknown : Bool -- a `SCEVUnknown`
  signedRange : ConstantRange w
  constantRangeOnEdge : Label → ConstantRange w

variable {F : Function} {M : Type} {w : Nat}

/-- The recurrence as `boundOverflowOperand` sees it. -/
def Start.recurrence (start : Start w) (L : Loop F) (step : Option (BitVec w)) (endRange : Option (ConstantRange w)) :
    AddRec w where
  step
  startRange := start.signedRange
  startOnEdges :=
    if start.isUnknown then some (L.preds.map fun P => (L.contains P, start.constantRangeOnEdge P)) else none
  endRange

def Loop.entry (L : Loop F) : Option Label := L.preds.find? fun P => !L.contains P

def Enters (world : World M) (L : Loop F) (start : Start w) (P : Label) (v : BitVec w) : Prop :=
  L.contains P = false ∧ ∃ input mem state block, (system F world input mem).Reachable (.running state) ∧
    state.label = P ∧ state.rest = [] ∧ F.block? P = some block ∧
    block.term.goto input state.env = some L.header ∧ start.value.eval input state.env = some (.int w v)

structure Start.Sound (world : World M) (L : Loop F) (start : Start w) : Prop where
  signedRange : ∀ P v, Enters world L start P v → start.signedRange.contains v = true
  constantRangeOnEdge : ∀ P v, Enters world L start P v → (start.constantRangeOnEdge P).contains v = true

/-- The range on the edge from `Entry` also has what comes in over the other edges. -/
def CoversOthers (world : World M) (L : Loop F) (start : Start w) : Prop :=
  ∀ entry, L.entry = some entry → ∀ P v, P ≠ entry → Enters world L start P v →
    (start.constantRangeOnEdge entry).contains v = true

variable {world : World M} {L : Loop F} {start : Start w} {step : Option (BitVec w)} {endRange : Option (ConstantRange w)}

theorem Loop.entry_outside {entry : Label} (first : L.entry = some entry) : entry ∈ L.preds ∧ L.contains entry = false := by
  have outside := List.find?_some first
  rw [Bool.not_eq_true'] at outside
  exact ⟨List.mem_of_find?_eq_some first, outside⟩

theorem Enters.pred {P : Label} {v : BitVec w} (enters : Enters world L start P v) : P ∈ L.preds := by
  obtain ⟨_, input, _, state, block, _, _, _, here, goes, _⟩ := enters
  rw [← List.count_pos_iff, L.edges, Function.edges, here]
  exact List.count_pos_iff.mpr (goto_successor goes)

/-! The three ways `StartR` comes about. -/

theorem startR_known (known : start.signedRange.isFullSet = false) :
    (start.recurrence L step endRange).startR = start.signedRange := by
  have known : (start.recurrence L step endRange).startRange.isFullSet = false := known
  rw [AddRec.startR, known, if_neg Bool.false_ne_true]
  rfl

theorem startR_expression (expression : start.isUnknown = false) :
    (start.recurrence L step endRange).startR = start.signedRange := by
  have edges : (start.recurrence L step endRange).startOnEdges = none := by
    rw [Start.recurrence, expression]
    rfl
  rw [AddRec.startR, edges]
  split <;> rfl

theorem startR_unknown (full : start.signedRange.isFullSet = true) (unknown : start.isUnknown = true) :
    (start.recurrence L step endRange).startR =
      match L.entry with
      | some entry => start.constantRangeOnEdge entry
      | none => start.signedRange := by
  have full : (start.recurrence L step endRange).startRange.isFullSet = true := full
  have edges : (start.recurrence L step endRange).startOnEdges =
      some (L.preds.map fun P => (L.contains P, start.constantRangeOnEdge P)) := by
    rw [Start.recurrence, unknown]
    rfl
  have first : (L.preds.map fun P => (L.contains P, start.constantRangeOnEdge P)).find? (fun edge => !edge.1) =
      L.entry.map fun P => (L.contains P, start.constantRangeOnEdge P) := List.find?_map
  rw [AddRec.startR, full, if_pos rfl, edges]
  dsimp only
  rw [first]
  cases L.entry <;> rfl

/-- The range comes from the edge of one predecessor, the first that is outside the loop. LLVM
keeps no order of predecessors, and a header may be entered over several edges. -/
theorem start_range_iff (sound : start.Sound world L) (step : Option (BitVec w)) (endRange : Option (ConstantRange w)) :
    (∀ P v, Enters world L start P v → (start.recurrence L step endRange).startR.contains v = true) ↔
      start.signedRange.isFullSet = false ∨ start.isUnknown = false ∨ CoversOthers world L start := by
  cases full : start.signedRange.isFullSet with
  | false =>
    rw [startR_known full]
    exact iff_of_true sound.signedRange (.inl rfl)
  | true =>
    cases unknown : start.isUnknown with
    | false =>
      rw [startR_expression unknown]
      exact iff_of_true sound.signedRange (.inr (.inl rfl))
    | true =>
      rw [startR_unknown full unknown]
      simp only [Bool.true_eq_false, false_or, CoversOthers]
      cases L.entry with
      | none => exact iff_of_true sound.signedRange (by rintro _ ⟨⟩)
      | some entry =>
        constructor
        · rintro covers _ ⟨⟩ P v _ enters
          exact covers P v enters
        · intro others P v enters
          by_cases same : P = entry
          · rw [← same]
            exact sound.constantRangeOnEdge P v enters
          · exact others entry rfl P v same enters

theorem start_range_one_entry (sound : start.Sound world L)
    (one : ∀ P ∈ L.preds, ∀ Q ∈ L.preds, L.contains P = false → L.contains Q = false → P = Q) :
    ∀ P v, Enters world L start P v → (start.recurrence L step endRange).startR.contains v = true := by
  apply (start_range_iff sound step endRange).mpr
  refine .inr (.inr ?_)
  intro entry first P v other enters
  obtain ⟨inside, outside⟩ := Loop.entry_outside first
  exact absurd (one P enters.pred entry inside enters.1 outside) other

/-! A loop that a `switch` on the argument jumps into for 5 and reaches by way of another
block for the rest. -/

def countsToHundred : Function where
  sret := [false]
  entry := 0
  blocks := [
    (0, { phis := [], insts := [], term := .switch (.arg 0) [(.int 8 5, 1)] 2 }),
    (2, { phis := [], insts := [], term := .br 1 }),
    (1, { phis := [⟨10, [(0, .arg 0), (2, .arg 0), (1, .inst 12)]⟩],
          insts := [⟨11, .withOverflow .add true, [.inst 10, .const (.int 8 1)]⟩, ⟨12, .extractValue 0, [.inst 11]⟩,
            ⟨13, .icmp .eq, [.inst 12, .const (.int 8 100)]⟩],
          term := .condBr (.inst 13) 3 1 }),
    (3, { phis := [], insts := [], term := .ret none })]

/-- The loop, with the edge of the `switch` in one of two places. -/
def hundredLoop (preds : List Label) (listed : preds.Perm [0, 2, 1]) : Loop countsToHundred where
  header := 1
  contains P := P == 1
  preds
  edges P := by
    have inside : ∀ P ∈ countsToHundred.labels, [0, 2, 1].count P = countsToHundred.edges P 1 := by decide
    rw [listed.count_eq]
    by_cases known : P ∈ countsToHundred.labels
    · exact inside P known
    · rw [Function.edges_outside known, List.count_eq_zero]
      exact fun member => known ((by decide : [0, 2, 1] ⊆ countsToHundred.labels) member)

/-- On the edge of the `switch` the argument is 5; nothing is known elsewhere. -/
def hundredStart : Start 8 where
  value := .arg 0
  isUnknown := true
  signedRange := ConstantRange.getFull
  constantRangeOnEdge P := if P = 0 then ⟨5, 6⟩ else ConstantRange.getFull

def noCalls : World Unit where
  call _ _ _ _ _ := False
  aborts _ _ _ := False
  other _ _ _ _ _ := False

theorem hundredStart_sound (preds : List Label) (listed : preds.Perm [0, 2, 1]) :
    hundredStart.Sound noCalls (hundredLoop preds listed) where
  signedRange _ _ _ := ConstantRange.full_contains rfl _
  constantRangeOnEdge P v enters := by
    obtain ⟨_, input, _, state, block, _, _, _, here, goes, value⟩ := enters
    dsimp only [hundredStart]
    split
    · next first =>
      -- the `switch` takes this edge for 5 only
      subst first
      cases here
      dsimp only [Terminator.goto] at goes
      rw [show (Llvm.Operand.arg 0).eval input state.env = some (.int 8 v) from value] at goes
      by_cases five : v = 5
      · subst five
        decide
      · have other : List.lookup (Val.int 8 v) [(Val.int 8 5, 1)] = none := List.lookup_eq_none_iff.mpr (by simpa using five)
        dsimp only at goes
        rw [other] at goes
        change some 2 = some 1 at goes
        cases goes
    · exact ConstantRange.full_contains rfl _

theorem seven_enters (preds : List Label) (listed : preds.Perm [0, 2, 1]) :
    Enters noCalls (hundredLoop preds listed) hundredStart 2 7 := by
  have jump : Step countsToHundred noCalls [.int 8 7] (.running ⟨0, [], fun _ => none, ()⟩) none
      (.running ⟨2, [], fun _ => none, ()⟩) := .jumps rfl rfl rfl rfl rfl rfl
  have start : (system countsToHundred noCalls [.int 8 7] ()).start (.running ⟨0, [], fun _ => none, ()⟩) := ⟨_, rfl, rfl⟩
  exact ⟨rfl, [.int 8 7], (), _, _, (Transition.System.Reachable.initial start).step jump, rfl, rfl, rfl, rfl, rfl⟩

theorem seven_covered :
    (hundredStart.recurrence (hundredLoop [2, 0, 1] (by decide)) (some 1) none).startR.contains 7 = true := by
  refine (start_range_iff (hundredStart_sound _ _) _ _).mpr (.inr (.inr ?_)) 2 7 (seven_enters _ _)
  intro entry first P v _ _
  obtain rfl := Option.some.inj first
  exact ConstantRange.full_contains rfl v

/-- With the edge of the `switch` first the start is 5, and the loop also runs from 7. -/
theorem seven_excluded :
    hundredStart.Sound noCalls (hundredLoop [0, 2, 1] (by decide)) ∧
      Enters noCalls (hundredLoop [0, 2, 1] (by decide)) hundredStart 2 7 ∧
      (hundredStart.recurrence (hundredLoop [0, 2, 1] (by decide)) (some 1) none).startR.contains 7 = false := by
  refine ⟨hundredStart_sound _ _, seven_enters _ _, ?_⟩
  decide

end RoboticsRt.Ubsan

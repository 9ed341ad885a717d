import RoboticsRt.Ubsan.OperandBound

/-! Whether the computed range of an operand holds every value it takes. The start and the
end of a recurrence, compared as signed numbers, say nothing about the values between
them, and the union of their ranges may close either way round. -/

namespace RoboticsRt.Ubsan
open Llvm

variable {w : Nat}

def iterate (start step : BitVec w) (k : Nat) : BitVec w := start + BitVec.ofNat w k * step

/-- What the analyses answer about a recurrence is right. -/
structure Sound (V : Operand w) (ar : AddRec w) (endR : ConstantRange w) (start step : BitVec w) (B : Nat) : Prop where
  addRec : V.addRec = some ar
  constant : ar.step = some step
  counted : ar.endRange = some endR
  signedRange : ∀ k ≤ B, V.signedRange.contains (iterate start step k) = true
  guardedRange : ∀ guarded ∈ V.guardedRange, ∀ k ≤ B, guarded.contains (iterate start step k) = true
  first : ar.startR.contains (iterate start step 0) = true
  last : endR.contains (iterate start step B) = true

def Covers (V : Operand w) (start step : BitVec w) (B : Nat) : Prop :=
  ∀ k ≤ B, (boundOverflowOperand V).contains (iterate start step k) = true

/-- The branch that narrows the range is taken. -/
structure Narrows (step : BitVec w) (startR endR : ConstantRange w) : Prop where
  startKnown : startR.isFullSet = false
  endKnown : endR.isFullSet = false
  ordered : monotone step startR endR = true

/-- In one of the two ranges, or in the gap that their union closes. -/
def Between (startR endR : ConstantRange w) (v : BitVec w) : Prop :=
  startR.contains v = true ∨ endR.contains v = true ∨
    ConstantRange.Apart startR endR ∧ (ConstantRange.closedGap startR endR).contains v = true

def Returned (R union : ConstantRange w) : Prop :=
  R.isFullSet = false ∧ union.isFullSet = false ∧ ConstantRange.Crossing R union ∧ R.keepsFirst union = true

variable {V : Operand w} {ar : AddRec w} {endR : ConstantRange w} {start step : BitVec w} {B : Nat}

theorem Sound.initialRange (sound : Sound V ar endR start step B) :
    ∀ k ≤ B, V.initialRange.contains (iterate start step k) = true := by
  intro k within
  have signed := sound.signedRange k within
  unfold Operand.initialRange
  cases guards : V.guardedRange with
  | none => exact signed
  | some guarded => exact ConstantRange.contains_intersectWith signed (sound.guardedRange guarded guards k within)

theorem Sound.bound (sound : Sound V ar endR start step B) :
    boundOverflowOperand V =
      if !ar.startR.isFullSet && !endR.isFullSet && monotone step ar.startR endR then
        V.initialRange.intersectWith (ar.startR.unionWith endR)
      else V.initialRange := by
  simp only [boundOverflowOperand, sound.addRec, sound.constant, sound.counted]

theorem operand_range_iff (sound : Sound V ar endR start step B) :
    Covers V start step B ↔
      ¬ Narrows step ar.startR endR ∨ (∀ k ≤ B, Between ar.startR endR (iterate start step k)) ∨
        Returned V.initialRange (ar.startR.unionWith endR) := by
  unfold Covers
  rw [sound.bound]
  by_cases narrows : Narrows step ar.startR endR
  · have proper := ConstantRange.Proper.of_contains sound.first narrows.startKnown
    have proper' := ConstantRange.Proper.of_contains sound.last narrows.endKnown
    have union (v : BitVec w) := ConstantRange.contains_unionWith proper proper' v
    let some (v : BitVec w) : Prop := ∃ k ≤ B, iterate start step k = v
    have inside : ∀ v, some v → V.initialRange.contains v = true := by
      rintro _ ⟨k, within, rfl⟩
      exact sound.initialRange k within
    have keeps := ConstantRange.intersectWith_keeps_iff ⟨0, Nat.zero_le B, rfl⟩ inside
      ((union _).mpr (.inl sound.first)) proper.wide
    have each (r : ConstantRange w) : (∀ v, some v → r.contains v = true) ↔
        ∀ k ≤ B, r.contains (iterate start step k) = true :=
      ⟨fun all k within => all _ ⟨k, within, rfl⟩, fun all v ⟨k, within, same⟩ => same ▸ all k within⟩
    rw [each, each] at keeps
    have taken : (!ar.startR.isFullSet && !endR.isFullSet && monotone step ar.startR endR) = true := by
      rw [narrows.startKnown, narrows.endKnown, narrows.ordered]
      rfl
    rw [taken, if_pos rfl, keeps]
    simp only [union, narrows, not_true, false_or]
    rfl
  · have uncut : (!ar.startR.isFullSet && !endR.isFullSet && monotone step ar.startR endR) = false := by
      refine Bool.eq_false_iff.mpr fun all => narrows ?_
      simp only [Bool.and_eq_true, Bool.not_eq_true'] at all
      exact ⟨all.1.1, all.1.2, all.2⟩
    rw [uncut, if_neg Bool.false_ne_true]
    exact iff_of_true sound.initialRange (.inl narrows)

/-! Eight-bit recurrences from 0. -/

def counter (step : BitVec 8) (B : Nat) : Operand 8 where
  signedRange := ConstantRange.getFull
  guardedRange := some ConstantRange.getFull
  addRec := some ⟨some step, ⟨0, 1⟩, none, some ⟨iterate 0 step B, iterate 0 step B + 1⟩⟩

theorem counter_sound (step : BitVec 8) (B : Nat)
    (last : (⟨iterate 0 step B, iterate 0 step B + 1⟩ : ConstantRange 8).contains (iterate 0 step B) = true) :
    Sound (counter step B) ⟨some step, ⟨0, 1⟩, none, some ⟨iterate 0 step B, iterate 0 step B + 1⟩⟩
      ⟨iterate 0 step B, iterate 0 step B + 1⟩ 0 step B where
  addRec := rfl
  constant := rfl
  counted := rfl
  signedRange k _ := ConstantRange.full_contains rfl _
  guardedRange guarded known k _ := by
    cases known
    exact ConstantRange.full_contains rfl _
  first := by
    have zero : iterate 0 step 0 = 0 := by simp [iterate]
    rw [zero]
    rfl
  last := last

theorem three_ones_covered : Covers (counter 1 3) 0 1 3 := by
  refine (operand_range_iff (counter_sound 1 3 (by decide))).mpr (.inr (.inl ?_))
  unfold Between ConstantRange.Apart
  decide

/-- 0, 100, 200 and 44: the ends are in order, and the range stops at 44. -/
theorem wrapped_hundred_excluded :
    Sound (counter 100 3) ⟨some 100, ⟨0, 1⟩, none, some ⟨44, 45⟩⟩ ⟨44, 45⟩ 0 100 3 ∧ ¬ Covers (counter 100 3) 0 100 3 := by
  refine ⟨counter_sound 100 3 (by decide), fun covers => ?_⟩
  have hundred := covers 1 (by decide)
  revert hundred
  decide

end RoboticsRt.Ubsan

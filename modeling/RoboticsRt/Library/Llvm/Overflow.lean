import RoboticsRt.Library.Llvm.ConstantRange
import RoboticsRt.Library.Llvm.Ir

/-! Whether a checked operation can overflow on two constant ranges. The answers are read
off the smallest and the largest member; of an empty range nothing is proved. -/

namespace Llvm

inductive OverflowResult where
  | alwaysOverflowsLow
  | alwaysOverflowsHigh
  | mayOverflow
  | neverOverflows
  deriving DecidableEq

namespace ConstantRange
variable {w : Nat}

def isWrappedSet (r : ConstantRange w) : Bool := r.upper < r.lower ∧ r.upper ≠ 0

def getUnsignedMax (r : ConstantRange w) : BitVec w :=
  if r.isFullSet || r.isUpperWrapped then BitVec.allOnes w else r.upper - 1

def getUnsignedMin (r : ConstantRange w) : BitVec w :=
  if r.isFullSet || r.isWrappedSet then 0 else r.lower

def unsignedAddMayOverflow (r other : ConstantRange w) : OverflowResult :=
  if r.isEmptySet || other.isEmptySet then .mayOverflow
  else if ~~~other.getUnsignedMin < r.getUnsignedMin then .alwaysOverflowsHigh
  else if ~~~other.getUnsignedMax < r.getUnsignedMax then .mayOverflow
  else .neverOverflows

def signedAddMayOverflow (r other : ConstantRange w) : OverflowResult :=
  let min := r.getSignedMin
  let max := r.getSignedMax
  let otherMin := other.getSignedMin
  let otherMax := other.getSignedMax
  if r.isEmptySet || other.isEmptySet then .mayOverflow
  else if !min.msb && !otherMin.msb && (BitVec.intMax w - otherMin).slt min then .alwaysOverflowsHigh
  else if max.msb && otherMax.msb && max.slt (BitVec.intMin w - otherMax) then .alwaysOverflowsLow
  else if !max.msb && !otherMax.msb && (BitVec.intMax w - otherMax).slt max then .mayOverflow
  else if min.msb && otherMin.msb && min.slt (BitVec.intMin w - otherMin) then .mayOverflow
  else .neverOverflows

def unsignedSubMayOverflow (r other : ConstantRange w) : OverflowResult :=
  if r.isEmptySet || other.isEmptySet then .mayOverflow
  else if r.getUnsignedMax < other.getUnsignedMin then .alwaysOverflowsLow
  else if r.getUnsignedMin < other.getUnsignedMax then .mayOverflow
  else .neverOverflows

def signedSubMayOverflow (r other : ConstantRange w) : OverflowResult :=
  let min := r.getSignedMin
  let max := r.getSignedMax
  let otherMin := other.getSignedMin
  let otherMax := other.getSignedMax
  if r.isEmptySet || other.isEmptySet then .mayOverflow
  else if !min.msb && otherMax.msb && (BitVec.intMax w + otherMax).slt min then .alwaysOverflowsHigh
  else if max.msb && !otherMin.msb && max.slt (BitVec.intMin w + otherMin) then .alwaysOverflowsLow
  else if !max.msb && otherMin.msb && (BitVec.intMax w + otherMin).slt max then .mayOverflow
  else if min.msb && !otherMax.msb && min.slt (BitVec.intMin w + otherMax) then .mayOverflow
  else .neverOverflows

def unsignedMulMayOverflow (r other : ConstantRange w) : OverflowResult :=
  if r.isEmptySet || other.isEmptySet then .mayOverflow
  else if r.getUnsignedMin.umulOverflow other.getUnsignedMin then .alwaysOverflowsHigh
  else if r.getUnsignedMax.umulOverflow other.getUnsignedMax then .mayOverflow
  else .neverOverflows

/-! The smallest and the largest member. -/

variable {r other : ConstantRange w} {v : BitVec w}

theorem toNat_sub_one {u : BitVec w} (positive : 0 < w) :
    (u - 1).toNat = if u.toNat = 0 then 2 ^ w - 1 else u.toNat - 1 := by
  have one : (1 : BitVec w).toNat = 1 := by
    rw [BitVec.ofNat_eq_ofNat, BitVec.toNat_ofNat]
    exact Nat.mod_eq_of_lt (Nat.one_lt_two_pow positive.ne')
  have bound := u.isLt
  rw [BitVec.toNat_sub, one]
  split
  · next zero => rw [zero, Nat.add_zero, Nat.mod_eq_of_lt (by omega)]
  · rw [show 2 ^ w - 1 + u.toNat = (u.toNat - 1) + 2 ^ w by omega, Nat.add_mod_right, Nat.mod_eq_of_lt (by omega)]

theorem le_getUnsignedMax (positive : 0 < w) (inside : r.contains v = true) : v.toNat ≤ r.getUnsignedMax.toNat := by
  have bound := v.isLt
  unfold getUnsignedMax
  split_ifs with whole
  · rw [BitVec.toNat_allOnes]
    omega
  · simp only [Bool.or_eq_true, isUpperWrapped_iff, not_or, Bool.not_eq_true] at whole
    have arc := (contains_arc (.of_contains inside whole.1) v).mp inside
    rw [toNat_sub_one positive]
    split <;> omega

theorem getUnsignedMin_le (inside : r.contains v = true) : r.getUnsignedMin.toNat ≤ v.toNat := by
  unfold getUnsignedMin
  split_ifs with whole
  · exact Nat.zero_le _
  · simp only [Bool.or_eq_true, not_or, Bool.not_eq_true, isWrappedSet, decide_eq_false_iff_not, BitVec.lt_def, ne_eq,
      BitVec.toNat_eq, BitVec.ofNat_eq_ofNat, BitVec.toNat_ofNat, Nat.zero_mod] at whole
    have arc := (contains_arc (.of_contains inside whole.1) v).mp inside
    omega

/-- A range that is not empty holds what it would hold as an arc. -/
theorem Valid.contains_of (valid : r.Valid) (occupied : r.isEmptySet = false)
    (arc : r.isFullSet = false → r.Proper → r.contains v = true) : r.contains v = true := by
  cases full : r.isFullSet with
  | true => exact full_contains full v
  | false => exact arc full (valid.proper full occupied)

theorem contains_getUnsignedMax (positive : 0 < w) (valid : r.Valid) (occupied : r.isEmptySet = false) :
    r.contains r.getUnsignedMax = true := by
  apply valid.contains_of occupied
  intro full proper
  have ends := proper.ends
  have lower := r.lower.isLt
  have upper := r.upper.isLt
  rw [contains_arc proper, getUnsignedMax, full, Bool.false_or]
  split_ifs with wrapped
  · rw [isUpperWrapped_iff] at wrapped
    rw [BitVec.toNat_allOnes]
    omega
  · rw [isUpperWrapped_iff] at wrapped
    rw [toNat_sub_one positive]
    split <;> omega

theorem contains_getUnsignedMin (valid : r.Valid) (occupied : r.isEmptySet = false) :
    r.contains r.getUnsignedMin = true := by
  apply valid.contains_of occupied
  intro full proper
  have ends := proper.ends
  rw [contains_arc proper, getUnsignedMin, full, Bool.false_or]
  split_ifs with wrapped
  all_goals
    simp only [isWrappedSet, decide_eq_true_eq, BitVec.lt_def, ne_eq, BitVec.toNat_eq, BitVec.ofNat_eq_ofNat,
      BitVec.toNat_ofNat, Nat.zero_mod] at wrapped ⊢
    omega

theorem occupied_iff (positive : 0 < w) (valid : r.Valid) : r.isEmptySet = false ↔ ∃ v, r.contains v = true := by
  constructor
  · exact fun occupied => ⟨_, contains_getUnsignedMin valid occupied⟩
  · intro ⟨v, inside⟩
    by_contra empty
    rw [empty_contains (Bool.of_not_eq_false empty) (wide_of_pos positive) v] at inside
    cases inside

theorem le_getSignedMax (positive : 0 < w) (inside : r.contains v = true) : v.toInt ≤ r.getSignedMax.toInt := by
  unfold getSignedMax
  split_ifs with whole
  · rw [BitVec.toInt_intMax]
    exact BitVec.toInt_le
  · simp only [Bool.or_eq_true, not_or, Bool.not_eq_true, isUpperSignWrapped, BitVec.slt_eq_decide,
      decide_eq_false_iff_not] at whole
    have arc := (contains_arc (.of_contains inside whole.1) v).mp inside
    have bounds := And.intro r.lower.isLt (And.intro r.upper.isLt v.isLt)
    simp only [BitVec.toInt_eq_toNat_cond] at whole ⊢
    rw [toNat_sub_one positive]
    split_ifs at whole ⊢ <;> omega

theorem getSignedMin_le (positive : 0 < w) (inside : r.contains v = true) : r.getSignedMin.toInt ≤ v.toInt := by
  unfold getSignedMin
  split_ifs with whole
  · exact BitVec.toInt_intMin_le v
  · have half := Nat.two_pow_pred_add_two_pow_pred positive
    have bounds := And.intro r.lower.isLt (And.intro r.upper.isLt v.isLt)
    simp only [Bool.or_eq_true, not_or, Bool.not_eq_true, isSignWrappedSet, BitVec.slt_eq_decide, decide_eq_true_eq,
      ne_eq, BitVec.toNat_eq, BitVec.toNat_intMin_of_pos positive] at whole
    have arc := (contains_arc (.of_contains inside whole.1) v).mp inside
    simp only [BitVec.toInt_eq_toNat_cond] at whole ⊢
    split_ifs at whole ⊢ <;> omega

theorem contains_getSignedMax (positive : 0 < w) (valid : r.Valid) (occupied : r.isEmptySet = false) :
    r.contains r.getSignedMax = true := by
  apply valid.contains_of occupied
  intro full proper
  have ends := proper.ends
  have half := Nat.two_pow_pred_add_two_pow_pred positive
  have bounds := And.intro r.lower.isLt r.upper.isLt
  rw [contains_arc proper, getSignedMax, full, Bool.false_or]
  split_ifs with wrapped
  all_goals
    simp only [isUpperSignWrapped, BitVec.slt_eq_decide, decide_eq_true_eq, BitVec.toInt_eq_toNat_cond] at wrapped
  · rw [BitVec.toNat_intMax]
    split_ifs at wrapped <;> omega
  · rw [toNat_sub_one positive]
    split_ifs at wrapped ⊢ <;> omega

theorem contains_getSignedMin (positive : 0 < w) (valid : r.Valid) (occupied : r.isEmptySet = false) :
    r.contains r.getSignedMin = true := by
  apply valid.contains_of occupied
  intro full proper
  have ends := proper.ends
  have half := Nat.two_pow_pred_add_two_pow_pred positive
  have bounds := And.intro r.lower.isLt r.upper.isLt
  rw [contains_arc proper, getSignedMin, full, Bool.false_or]
  split_ifs with wrapped
  all_goals
    simp only [isSignWrappedSet, BitVec.slt_eq_decide, decide_eq_true_eq, ne_eq, BitVec.toNat_eq,
      BitVec.toNat_intMin_of_pos positive, BitVec.toInt_eq_toNat_cond] at wrapped ⊢
    split_ifs at wrapped <;> omega

/-! The comparisons of the signed answers. Each looks at the signs first, so that what it
compares with does not wrap. -/

variable {a b : BitVec w}

theorem ssubOverflow_iff :
    a.ssubOverflow b = true ↔ 2 ^ (w - 1) ≤ a.toInt - b.toInt ∨ a.toInt - b.toInt < -2 ^ (w - 1) := by
  rw [BitVec.ssubOverflow, Bool.or_eq_true, decide_eq_true_eq, decide_eq_true_eq]

theorem saddOverflow_iff :
    a.saddOverflow b = true ↔ 2 ^ (w - 1) ≤ a.toInt + b.toInt ∨ a.toInt + b.toInt < -2 ^ (w - 1) := by
  rw [BitVec.saddOverflow, Bool.or_eq_true, decide_eq_true_eq, decide_eq_true_eq]

theorem add_high_iff : (!a.msb && !b.msb && (BitVec.intMax w - b).slt a) = true ↔ 2 ^ (w - 1) ≤ a.toInt + b.toInt := by
  have high := BitVec.toInt_le (x := a)
  have high' := BitVec.toInt_le (x := b)
  have unwrapped (nonneg : 0 ≤ b.toInt) : (BitVec.intMax w - b).toInt = 2 ^ (w - 1) - 1 - b.toInt := by
    rw [BitVec.toInt_sub_of_not_ssubOverflow, BitVec.toInt_intMax]
    rw [ssubOverflow_iff, BitVec.toInt_intMax]
    omega
  simp only [Bool.and_eq_true, Bool.not_eq_true', BitVec.msb_eq_toInt, decide_eq_false_iff_not, Int.not_lt,
    BitVec.slt_eq_decide, decide_eq_true_eq]
  constructor
  · rintro ⟨⟨_, nonneg⟩, above⟩
    rw [unwrapped nonneg] at above
    omega
  · intro above
    rw [unwrapped (by omega)]
    omega

theorem add_low_iff (positive : 0 < w) :
    (a.msb && b.msb && a.slt (BitVec.intMin w - b)) = true ↔ a.toInt + b.toInt < -2 ^ (w - 1) := by
  have low := BitVec.le_toInt a
  have low' := BitVec.le_toInt b
  have unwrapped (negative : b.toInt < 0) : (BitVec.intMin w - b).toInt = -2 ^ (w - 1) - b.toInt := by
    rw [BitVec.toInt_sub_of_not_ssubOverflow, BitVec.toInt_intMin_of_pos positive]
    rw [ssubOverflow_iff, BitVec.toInt_intMin_of_pos positive]
    omega
  simp only [Bool.and_eq_true, BitVec.msb_eq_toInt, BitVec.slt_eq_decide, decide_eq_true_eq]
  constructor
  · rintro ⟨⟨_, negative⟩, below⟩
    rw [unwrapped negative] at below
    omega
  · intro below
    rw [unwrapped (by omega)]
    omega

theorem sub_high_iff : (!a.msb && b.msb && (BitVec.intMax w + b).slt a) = true ↔ 2 ^ (w - 1) ≤ a.toInt - b.toInt := by
  have high := BitVec.toInt_le (x := a)
  have low' := BitVec.le_toInt b
  have unwrapped (negative : b.toInt < 0) : (BitVec.intMax w + b).toInt = 2 ^ (w - 1) - 1 + b.toInt := by
    rw [BitVec.toInt_add_of_not_saddOverflow, BitVec.toInt_intMax]
    rw [saddOverflow_iff, BitVec.toInt_intMax]
    omega
  simp only [Bool.and_eq_true, Bool.not_eq_true', BitVec.msb_eq_toInt, decide_eq_false_iff_not, Int.not_lt,
    BitVec.slt_eq_decide, decide_eq_true_eq]
  constructor
  · rintro ⟨⟨_, negative⟩, above⟩
    rw [unwrapped negative] at above
    omega
  · intro above
    rw [unwrapped (by omega)]
    omega

theorem sub_low_iff (positive : 0 < w) :
    (a.msb && !b.msb && a.slt (BitVec.intMin w + b)) = true ↔ a.toInt - b.toInt < -2 ^ (w - 1) := by
  have low := BitVec.le_toInt a
  have high' := BitVec.toInt_le (x := b)
  have unwrapped (nonneg : 0 ≤ b.toInt) : (BitVec.intMin w + b).toInt = -2 ^ (w - 1) + b.toInt := by
    rw [BitVec.toInt_add_of_not_saddOverflow, BitVec.toInt_intMin_of_pos positive]
    rw [saddOverflow_iff, BitVec.toInt_intMin_of_pos positive]
    omega
  simp only [Bool.and_eq_true, Bool.not_eq_true', BitVec.msb_eq_toInt, decide_eq_false_iff_not, Int.not_lt,
    BitVec.slt_eq_decide, decide_eq_true_eq]
  constructor
  · rintro ⟨⟨_, nonneg⟩, below⟩
    rw [unwrapped nonneg] at below
    omega
  · intro below
    rw [unwrapped (by omega)]
    omega

/-! Only `neverOverflows` rules every overflow out, and it is given whenever there is none:
overflows show at the extreme members. -/

/-- No two members overflow. -/
def Safe (r other : ConstantRange w) (overflows : BitVec w → BitVec w → Bool) : Prop :=
  ∀ a b, r.contains a = true → other.contains b = true → overflows a b = false

theorem never_of_two {p q : Prop} [Decidable p] [Decidable q] {first : OverflowResult} (other : first ≠ .neverOverflows) :
    (if p then first else if q then .mayOverflow else .neverOverflows) = .neverOverflows ↔ ¬ p ∧ ¬ q := by
  split_ifs <;> simp [*]

theorem never_of_four {p q p' q' : Prop} [Decidable p] [Decidable q] [Decidable p'] [Decidable q'] :
    (if p then OverflowResult.alwaysOverflowsHigh else if q then .alwaysOverflowsLow else if p' then .mayOverflow
      else if q' then .mayOverflow else .neverOverflows) = .neverOverflows ↔ ¬ p ∧ ¬ q ∧ ¬ p' ∧ ¬ q' := by
  split_ifs <;> simp [*]

section Occupied
variable (positive : 0 < w) (hr : r.Valid) (ho : other.Valid)
  (occupied : r.isEmptySet = false) (occupied' : other.isEmptySet = false)
include positive hr ho occupied occupied'

theorem safe_sadd_iff : Safe r other BitVec.saddOverflow ↔
    r.getSignedMax.toInt + other.getSignedMax.toInt < 2 ^ (w - 1) ∧
      -2 ^ (w - 1) ≤ r.getSignedMin.toInt + other.getSignedMin.toInt := by
  constructor
  · intro safe
    have top := safe _ _ (contains_getSignedMax positive hr occupied) (contains_getSignedMax positive ho occupied')
    have bottom := safe _ _ (contains_getSignedMin positive hr occupied) (contains_getSignedMin positive ho occupied')
    rw [← Bool.not_eq_true, saddOverflow_iff] at top bottom
    omega
  · intro corners a b first second
    have top := Int.add_le_add (le_getSignedMax positive first) (le_getSignedMax positive second)
    have bottom := Int.add_le_add (getSignedMin_le positive first) (getSignedMin_le positive second)
    rw [← Bool.not_eq_true, saddOverflow_iff]
    omega

theorem safe_ssub_iff : Safe r other BitVec.ssubOverflow ↔
    r.getSignedMax.toInt - other.getSignedMin.toInt < 2 ^ (w - 1) ∧
      -2 ^ (w - 1) ≤ r.getSignedMin.toInt - other.getSignedMax.toInt := by
  constructor
  · intro safe
    have top := safe _ _ (contains_getSignedMax positive hr occupied) (contains_getSignedMin positive ho occupied')
    have bottom := safe _ _ (contains_getSignedMin positive hr occupied) (contains_getSignedMax positive ho occupied')
    rw [← Bool.not_eq_true, ssubOverflow_iff] at top bottom
    omega
  · intro corners a b first second
    have top := Int.sub_le_sub (le_getSignedMax positive first) (getSignedMin_le positive second)
    have bottom := Int.sub_le_sub (getSignedMin_le positive first) (le_getSignedMax positive second)
    rw [← Bool.not_eq_true, ssubOverflow_iff]
    omega

theorem signedAddMayOverflow_never :
    r.signedAddMayOverflow other = .neverOverflows ↔ Safe r other BitVec.saddOverflow := by
  have spread := le_getSignedMax positive (contains_getSignedMin positive hr occupied)
  have spread' := le_getSignedMax positive (contains_getSignedMin positive ho occupied')
  rw [safe_sadd_iff positive hr ho occupied occupied']
  unfold signedAddMayOverflow
  simp only [occupied, occupied', Bool.or_false, Bool.false_eq_true, if_false, add_high_iff, add_low_iff positive]
  rw [never_of_four]
  omega

theorem signedSubMayOverflow_never :
    r.signedSubMayOverflow other = .neverOverflows ↔ Safe r other BitVec.ssubOverflow := by
  have spread := le_getSignedMax positive (contains_getSignedMin positive hr occupied)
  have spread' := le_getSignedMax positive (contains_getSignedMin positive ho occupied')
  rw [safe_ssub_iff positive hr ho occupied occupied']
  unfold signedSubMayOverflow
  simp only [occupied, occupied', Bool.or_false, Bool.false_eq_true, if_false, sub_high_iff, sub_low_iff positive]
  rw [never_of_four]
  omega

/-- Where larger operands overflow the more, the largest members decide. -/
theorem safe_largest_iff {overflows : BitVec w → BitVec w → Bool}
    (grows : ∀ a b a' b' : BitVec w, a.toNat ≤ a'.toNat → b.toNat ≤ b'.toNat → overflows a b = true →
      overflows a' b' = true) :
    Safe r other overflows ↔ ¬ overflows r.getUnsignedMin other.getUnsignedMin = true ∧
      ¬ overflows r.getUnsignedMax other.getUnsignedMax = true := by
  have largest := contains_getUnsignedMax positive hr occupied
  have largest' := contains_getUnsignedMax positive ho occupied'
  simp only [Bool.not_eq_true]
  constructor
  · intro safe
    exact ⟨safe _ _ (contains_getUnsignedMin hr occupied) (contains_getUnsignedMin ho occupied'), safe _ _ largest largest'⟩
  · intro ⟨_, top⟩ a b first second
    rw [← Bool.not_eq_true] at top ⊢
    exact fun both => top (grows a b _ _ (le_getUnsignedMax positive first) (le_getUnsignedMax positive second) both)

theorem unsignedAddMayOverflow_never :
    r.unsignedAddMayOverflow other = .neverOverflows ↔ Safe r other BitVec.uaddOverflow := by
  have above {a b : BitVec w} : ~~~b < a ↔ a.uaddOverflow b = true := by
    have bound := b.isLt
    rw [BitVec.lt_def, BitVec.toNat_not, BitVec.uaddOverflow, decide_eq_true_eq]
    omega
  rw [safe_largest_iff positive hr ho occupied occupied']
  · unfold unsignedAddMayOverflow
    simp only [occupied, occupied', Bool.or_false, Bool.false_eq_true, if_false, above]
    exact never_of_two (by decide)
  · intro a b a' b' first second smaller
    rw [BitVec.uaddOverflow, decide_eq_true_eq] at smaller ⊢
    omega

theorem unsignedMulMayOverflow_never :
    r.unsignedMulMayOverflow other = .neverOverflows ↔ Safe r other BitVec.umulOverflow := by
  rw [safe_largest_iff positive hr ho occupied occupied']
  · unfold unsignedMulMayOverflow
    simp only [occupied, occupied', Bool.or_false, Bool.false_eq_true, if_false]
    exact never_of_two (by decide)
  · intro a b a' b' first second smaller
    rw [BitVec.umulOverflow, decide_eq_true_eq] at smaller ⊢
    exact smaller.trans (Nat.mul_le_mul first second)

theorem unsignedSubMayOverflow_never :
    r.unsignedSubMayOverflow other = .neverOverflows ↔ Safe r other BitVec.usubOverflow := by
  have smallest := contains_getUnsignedMin hr occupied
  have largest' := contains_getUnsignedMax positive ho occupied'
  unfold unsignedSubMayOverflow
  simp only [occupied, occupied', Bool.or_false, Bool.false_eq_true, if_false, BitVec.lt_def]
  rw [never_of_two (by decide)]
  constructor
  · intro ⟨_, corner⟩ a b first second
    have bottom := getUnsignedMin_le first
    have top := le_getUnsignedMax positive second
    rw [BitVec.usubOverflow, decide_eq_false_iff_not]
    omega
  · intro safe
    have corner := safe _ _ smallest largest'
    have spread := le_getUnsignedMax positive smallest
    have spread' := le_getUnsignedMax positive (contains_getUnsignedMin ho occupied')
    rw [BitVec.usubOverflow, decide_eq_false_iff_not] at corner
    omega

end Occupied
end ConstantRange
end Llvm

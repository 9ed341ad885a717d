import Mathlib.Data.BitVec
import Mathlib.Tactic.SplitIfs

/-! LLVM's constant ranges: arcs of the circle of machine integers, from `lower` up to
`upper`, exclusive. Where the union or the intersection of two arcs is no arc, the
smaller of the two ways to close it is taken. -/

namespace Llvm

@[ext]
structure ConstantRange (w : Nat) where
  lower : BitVec w
  upper : BitVec w
  deriving DecidableEq

namespace ConstantRange
variable {w : Nat}

def getFull : ConstantRange w := ⟨BitVec.allOnes w, BitVec.allOnes w⟩

def getEmpty : ConstantRange w := ⟨0, 0⟩

def isFullSet (r : ConstantRange w) : Bool := r.lower = r.upper ∧ r.lower = BitVec.allOnes w

def isEmptySet (r : ConstantRange w) : Bool := r.lower = r.upper ∧ r.lower = 0

def isUpperWrapped (r : ConstantRange w) : Bool := r.upper < r.lower

def isSignWrappedSet (r : ConstantRange w) : Bool := r.upper.slt r.lower ∧ r.upper ≠ BitVec.intMin w

def isUpperSignWrapped (r : ConstantRange w) : Bool := r.upper.slt r.lower

def getSignedMax (r : ConstantRange w) : BitVec w :=
  if r.isFullSet || r.isUpperSignWrapped then BitVec.intMax w else r.upper - 1

def getSignedMin (r : ConstantRange w) : BitVec w :=
  if r.isFullSet || r.isSignWrappedSet then BitVec.intMin w else r.lower

def contains (r : ConstantRange w) (v : BitVec w) : Bool :=
  if r.lower = r.upper then r.isFullSet
  else if r.isUpperWrapped then r.lower ≤ v ∨ v < r.upper
  else r.lower ≤ v ∧ v < r.upper

def isSizeStrictlySmallerThan (r other : ConstantRange w) : Bool :=
  if r.isFullSet then false
  else if other.isFullSet then true
  else r.upper - r.lower < other.upper - other.lower

/-- The preferred range type is `Smallest`. -/
def getPreferredRange (r other : ConstantRange w) : ConstantRange w :=
  if r.isSizeStrictlySmallerThan other then r else other

/-- `intersectWith`, where `r` is wrapped if only one of them is. -/
def intersectWrapped (r cr : ConstantRange w) : ConstantRange w :=
  if !r.isUpperWrapped && !cr.isUpperWrapped then
    if r.lower < cr.lower then
      if r.upper ≤ cr.lower then getEmpty
      else if r.upper < cr.upper then ⟨cr.lower, r.upper⟩
      else cr
    else if r.upper < cr.upper then r
    else if r.lower < cr.upper then ⟨r.lower, cr.upper⟩
    else getEmpty
  else if !cr.isUpperWrapped then
    if cr.lower < r.upper then
      if cr.upper < r.upper then cr
      else if cr.upper ≤ r.lower then ⟨cr.lower, r.upper⟩
      else getPreferredRange r cr
    else if cr.lower < r.lower then
      if cr.upper ≤ r.lower then getEmpty else ⟨r.lower, cr.upper⟩
    else cr
  else if cr.upper < r.upper then
    if cr.lower < r.upper then getPreferredRange r cr
    else if cr.lower < r.lower then ⟨r.lower, cr.upper⟩
    else cr
  else if cr.upper ≤ r.lower then
    if cr.lower < r.lower then r else ⟨cr.lower, r.upper⟩
  else getPreferredRange r cr

def intersectWith (r cr : ConstantRange w) : ConstantRange w :=
  if r.isEmptySet || cr.isFullSet then r
  else if cr.isEmptySet || r.isFullSet then cr
  else if !r.isUpperWrapped && cr.isUpperWrapped then cr.intersectWrapped r
  else r.intersectWrapped cr

/-- `unionWith`, where `r` is wrapped if only one of them is. -/
def unionWrapped (r cr : ConstantRange w) : ConstantRange w :=
  if !r.isUpperWrapped && !cr.isUpperWrapped then
    if cr.upper < r.lower ∨ r.upper < cr.lower then getPreferredRange ⟨r.lower, cr.upper⟩ ⟨cr.lower, r.upper⟩
    else
      let l := if cr.lower < r.lower then cr.lower else r.lower
      let u := if r.upper - 1 < cr.upper - 1 then cr.upper else r.upper
      if l = 0 ∧ u = 0 then getFull else ⟨l, u⟩
  else if !cr.isUpperWrapped then
    if cr.upper ≤ r.upper ∨ r.lower ≤ cr.lower then r
    else if cr.lower ≤ r.upper ∧ r.lower ≤ cr.upper then getFull
    else if r.upper < cr.lower ∧ cr.upper < r.lower then
      getPreferredRange ⟨r.lower, cr.upper⟩ ⟨cr.lower, r.upper⟩
    else if r.upper < cr.lower ∧ r.lower ≤ cr.upper then ⟨cr.lower, r.upper⟩
    else ⟨r.lower, cr.upper⟩
  else if cr.lower ≤ r.upper ∨ r.lower ≤ cr.upper then getFull
  else
    ⟨if cr.lower < r.lower then cr.lower else r.lower, if r.upper < cr.upper then cr.upper else r.upper⟩

def unionWith (r cr : ConstantRange w) : ConstantRange w :=
  if r.isFullSet || cr.isEmptySet then r
  else if cr.isFullSet || r.isEmptySet then cr
  else if !r.isUpperWrapped && cr.isUpperWrapped then cr.unionWrapped r
  else r.unionWrapped cr

/-! Membership. A range that contains something and is not full has two different ends. -/

def Proper (r : ConstantRange w) : Prop := r.lower ≠ r.upper

theorem Proper.of_contains {r : ConstantRange w} {v : BitVec w} (inside : r.contains v = true)
    (notFull : r.isFullSet = false) : r.Proper := by
  intro same
  rw [contains, if_pos same, notFull] at inside
  cases inside

theorem full_contains {r : ConstantRange w} (full : r.isFullSet = true) (v : BitVec w) : r.contains v = true := by
  have same : r.lower = r.upper := (of_decide_eq_true full).1
  rw [contains, if_pos same, full]

theorem Proper.notFull {r : ConstantRange w} (proper : r.Proper) : r.isFullSet = false :=
  decide_eq_false fun full => proper full.1

theorem Proper.notEmpty {r : ConstantRange w} (proper : r.Proper) : r.isEmptySet = false :=
  decide_eq_false fun empty => proper empty.1

theorem isUpperWrapped_iff {r : ConstantRange w} : r.isUpperWrapped = true ↔ r.upper.toNat < r.lower.toNat := by
  rw [isUpperWrapped, decide_eq_true_eq, BitVec.lt_def]

theorem contains_wrapped {l u v : BitVec w} (wrapped : u.toNat < l.toNat) :
    (⟨l, u⟩ : ConstantRange w).contains v = true ↔ l.toNat ≤ v.toNat ∨ v.toNat < u.toNat := by
  have proper : l ≠ u := fun same => by simp [same] at wrapped
  have turns : (⟨l, u⟩ : ConstantRange w).isUpperWrapped = true := isUpperWrapped_iff.mpr wrapped
  rw [contains, if_neg proper, if_pos turns, decide_eq_true_eq, BitVec.le_def, BitVec.lt_def]

theorem contains_plain {l u v : BitVec w} (plain : l.toNat < u.toNat) :
    (⟨l, u⟩ : ConstantRange w).contains v = true ↔ l.toNat ≤ v.toNat ∧ v.toNat < u.toNat := by
  have proper : l ≠ u := fun same => by simp [same] at plain
  have straight : ¬ (⟨l, u⟩ : ConstantRange w).isUpperWrapped = true := mt isUpperWrapped_iff.mp (Nat.lt_asymm plain)
  rw [contains, if_neg proper, if_neg straight, decide_eq_true_eq, BitVec.le_def, BitVec.lt_def]

theorem wide_of_pos (positive : 0 < w) : (0 : BitVec w) ≠ BitVec.allOnes w := by
  intro same
  have zero := congrArg BitVec.toNat same
  have two := Nat.one_lt_two_pow positive.ne'
  rw [BitVec.toNat_allOnes, BitVec.ofNat_eq_ofNat, BitVec.toNat_ofNat, Nat.zero_mod] at zero
  omega

theorem Proper.wide {r : ConstantRange w} (proper : r.Proper) : (0 : BitVec w) ≠ BitVec.allOnes w := by
  apply wide_of_pos
  apply Nat.pos_of_ne_zero
  rintro rfl
  exact proper (Subsingleton.elim _ _)

theorem empty_contains {r : ConstantRange w} (empty : r.isEmptySet = true) (wide : (0 : BitVec w) ≠ BitVec.allOnes w)
    (v : BitVec w) : r.contains v = false := by
  have ends : r.lower = r.upper ∧ r.lower = 0 := of_decide_eq_true empty
  rw [contains, if_pos ends.1]
  exact decide_eq_false fun full => wide (ends.2.symm.trans full.2)

theorem Proper.empty_contains {r : ConstantRange w} (proper : r.Proper) (v : BitVec w) :
    (getEmpty : ConstantRange w).contains v = false :=
  ConstantRange.empty_contains (decide_eq_true ⟨rfl, rfl⟩) proper.wide v

theorem Proper.ends {r : ConstantRange w} (proper : r.Proper) : r.lower.toNat ≠ r.upper.toNat :=
  fun same => proper (BitVec.eq_of_toNat_eq same)

theorem contains_arc {r : ConstantRange w} (proper : r.Proper) (v : BitVec w) :
    r.contains v = true ↔
      (r.lower.toNat < r.upper.toNat ∧ r.lower.toNat ≤ v.toNat ∧ v.toNat < r.upper.toNat) ∨
        (r.upper.toNat < r.lower.toNat ∧ (r.lower.toNat ≤ v.toNat ∨ v.toNat < r.upper.toNat)) := by
  rcases Nat.lt_or_gt_of_ne proper.ends with plain | wrapped
  · rw [contains_plain plain]
    omega
  · rw [contains_wrapped wrapped]
    omega

/-- Both ends of each arc lie in the other, so their intersection is two arcs. -/
def Crossing (r cr : ConstantRange w) : Prop :=
  r.lower ≠ cr.lower ∧ cr.contains r.lower = true ∧ r.contains cr.lower = true

/-- The three ways two proper ranges can lie, where the first one wraps if only one does. -/
theorem wrapped_cases {r cr : ConstantRange w} (hr : r.Proper) (hcr : cr.Proper)
    (order : ¬ (r.isUpperWrapped = false ∧ cr.isUpperWrapped = true)) :
    r.lower.toNat < r.upper.toNat ∧ cr.lower.toNat < cr.upper.toNat ∨
      r.upper.toNat < r.lower.toNat ∧ cr.lower.toNat < cr.upper.toNat ∨
      r.upper.toNat < r.lower.toNat ∧ cr.upper.toNat < cr.lower.toNat := by
  have turns : cr.upper.toNat < cr.lower.toNat → r.upper.toNat < r.lower.toNat := by
    intro wrapped'
    by_contra plain
    exact order ⟨Bool.eq_false_iff.mpr (mt isUpperWrapped_iff.mp plain), isUpperWrapped_iff.mpr wrapped'⟩
  have ends := hr.ends
  have ends' := hcr.ends
  omega

theorem intersectWrapped_plain {r cr : ConstantRange w} (plain : r.lower.toNat < r.upper.toNat)
    (plain' : cr.lower.toNat < cr.upper.toNat) :
    ¬ Crossing r cr ∧ ∀ v, (r.intersectWrapped cr).contains v = true ↔ r.contains v = true ∧ cr.contains v = true := by
  obtain ⟨l, u⟩ := r
  obtain ⟨l', u'⟩ := cr
  dsimp only at plain plain'
  have none (v : BitVec w) : ¬ (getEmpty : ConstantRange w).contains v = true := by
    have proper : (⟨l, u⟩ : ConstantRange w).Proper := fun same => plain.ne (congrArg BitVec.toNat same)
    rw [proper.empty_contains v]
    exact Bool.false_ne_true
  unfold Crossing intersectWrapped
  simp only [contains_plain plain, contains_plain plain', isUpperWrapped, BitVec.lt_def, BitVec.le_def,
    Nat.lt_asymm plain, Nat.lt_asymm plain', decide_false, Bool.not_false, Bool.and_self, if_true, ne_eq,
    BitVec.toNat_eq]
  refine ⟨by omega, fun v => ?_⟩
  split_ifs
  · exact iff_of_false (none v) (by omega)
  · rw [contains_plain (by omega)]
    omega
  · rw [contains_plain plain']
    omega
  · rw [contains_plain plain]
    omega
  · rw [contains_plain (by omega)]
    omega
  · exact iff_of_false (none v) (by omega)

theorem intersectWrapped_mixed {r cr : ConstantRange w} (wrapped : r.upper.toNat < r.lower.toNat)
    (plain' : cr.lower.toNat < cr.upper.toNat) :
    Crossing r cr ∧ r.intersectWrapped cr = getPreferredRange r cr ∨
      ¬ Crossing r cr ∧ ∀ v, (r.intersectWrapped cr).contains v = true ↔ r.contains v = true ∧ cr.contains v = true := by
  obtain ⟨l, u⟩ := r
  obtain ⟨l', u'⟩ := cr
  dsimp only at wrapped plain'
  have none (v : BitVec w) : ¬ (getEmpty : ConstantRange w).contains v = true := by
    have proper : (⟨l, u⟩ : ConstantRange w).Proper := fun same => wrapped.ne' (congrArg BitVec.toNat same)
    rw [proper.empty_contains v]
    exact Bool.false_ne_true
  unfold Crossing intersectWrapped
  simp only [contains_wrapped wrapped, contains_plain plain', isUpperWrapped, BitVec.lt_def, BitVec.le_def,
    Nat.lt_asymm plain', wrapped, decide_false, decide_true, Bool.not_true, Bool.not_false, if_true, ne_eq,
    BitVec.toNat_eq, Bool.false_and, Bool.false_eq_true, if_false]
  split_ifs
  · refine .inr ⟨by omega, fun v => ?_⟩
    rw [contains_plain plain']
    omega
  · refine .inr ⟨by omega, fun v => ?_⟩
    rw [contains_plain (by omega)]
    omega
  · exact .inl ⟨by omega, rfl⟩
  · exact .inr ⟨by omega, fun v => iff_of_false (none v) (by omega)⟩
  · refine .inr ⟨by omega, fun v => ?_⟩
    rw [contains_plain (by omega)]
    omega
  · refine .inr ⟨by omega, fun v => ?_⟩
    rw [contains_plain plain']
    omega

theorem intersectWrapped_wrapped {r cr : ConstantRange w} (wrapped : r.upper.toNat < r.lower.toNat)
    (wrapped' : cr.upper.toNat < cr.lower.toNat) :
    Crossing r cr ∧ r.intersectWrapped cr = getPreferredRange r cr ∨
      ¬ Crossing r cr ∧ ∀ v, (r.intersectWrapped cr).contains v = true ↔ r.contains v = true ∧ cr.contains v = true := by
  obtain ⟨l, u⟩ := r
  obtain ⟨l', u'⟩ := cr
  dsimp only at wrapped wrapped'
  unfold Crossing intersectWrapped
  simp only [contains_wrapped wrapped, contains_wrapped wrapped', isUpperWrapped, BitVec.lt_def, BitVec.le_def,
    wrapped', wrapped, decide_true, Bool.not_true, ne_eq, BitVec.toNat_eq, Bool.false_and, Bool.false_eq_true,
    if_false]
  split_ifs
  · exact .inl ⟨by omega, rfl⟩
  · refine .inr ⟨by omega, fun v => ?_⟩
    rw [contains_wrapped (by omega)]
    omega
  · refine .inr ⟨by omega, fun v => ?_⟩
    rw [contains_wrapped wrapped']
    omega
  · refine .inr ⟨by omega, fun v => ?_⟩
    rw [contains_wrapped wrapped]
    omega
  · refine .inr ⟨by omega, fun v => ?_⟩
    rw [contains_wrapped (by omega)]
    omega
  · exact .inl ⟨by omega, rfl⟩

theorem intersectWrapped_cases {r cr : ConstantRange w} (hr : r.Proper) (hcr : cr.Proper)
    (order : ¬ (r.isUpperWrapped = false ∧ cr.isUpperWrapped = true)) :
    Crossing r cr ∧ r.intersectWrapped cr = getPreferredRange r cr ∨
      ¬ Crossing r cr ∧ ∀ v, (r.intersectWrapped cr).contains v = true ↔ r.contains v = true ∧ cr.contains v = true := by
  rcases wrapped_cases hr hcr order with ⟨plain, plain'⟩ | ⟨wrapped, plain'⟩ | ⟨wrapped, wrapped'⟩
  · exact .inr (intersectWrapped_plain plain plain')
  · exact intersectWrapped_mixed wrapped plain'
  · exact intersectWrapped_wrapped wrapped wrapped'

/-- Two arcs with integers between them on both sides. -/
def Apart (r cr : ConstantRange w) : Prop :=
  cr.contains r.lower = false ∧ r.contains cr.lower = false ∧ r.upper ≠ cr.lower ∧ cr.upper ≠ r.lower

theorem toNat_pred {b : BitVec w} (positive : 0 < b.toNat) : (b - 1#w).toNat = b.toNat - 1 := by
  have one : (1#w).toNat = 1 := by
    have bound := b.isLt
    rw [BitVec.toNat_ofNat, Nat.mod_eq_of_lt (by omega)]
  rw [BitVec.toNat_sub_of_le (by rw [BitVec.le_def]; omega), one]

theorem getFull_contains (v : BitVec w) : (getFull : ConstantRange w).contains v = true :=
  full_contains (decide_eq_true ⟨rfl, rfl⟩) v

theorem unionWrapped_plain {r cr : ConstantRange w} (plain : r.lower.toNat < r.upper.toNat)
    (plain' : cr.lower.toNat < cr.upper.toNat) :
    Apart r cr ∧ r.unionWrapped cr = getPreferredRange ⟨r.lower, cr.upper⟩ ⟨cr.lower, r.upper⟩ ∨
      ¬ Apart r cr ∧ ∀ v, (r.unionWrapped cr).contains v = true ↔ r.contains v = true ∨ cr.contains v = true := by
  obtain ⟨l, u⟩ := r
  obtain ⟨l', u'⟩ := cr
  dsimp only at plain plain'
  unfold Apart unionWrapped
  simp only [← Bool.not_eq_true]
  simp only [contains_plain plain, contains_plain plain', isUpperWrapped, BitVec.lt_def, BitVec.le_def,
    Nat.lt_asymm plain, Nat.lt_asymm plain', decide_false, Bool.not_false, Bool.and_self, if_true, ne_eq,
    BitVec.toNat_eq, BitVec.ofNat_eq_ofNat, toNat_pred (Nat.zero_lt_of_lt plain),
    toNat_pred (Nat.zero_lt_of_lt plain'), BitVec.toNat_ofNat, Nat.zero_mod]
  by_cases gap : u'.toNat < l.toNat ∨ u.toNat < l'.toNat
  · rw [if_pos gap]
    exact .inl ⟨by omega, rfl⟩
  · rw [if_neg gap]
    refine .inr ⟨by omega, fun v => ?_⟩
    by_cases low : l'.toNat < l.toNat <;> by_cases high : u.toNat - 1 < u'.toNat - 1
    · rw [if_pos low, if_pos high, if_neg (by omega), contains_plain plain']
      omega
    · rw [if_pos low, if_neg high, if_neg (by omega), contains_plain (by omega)]
      omega
    · rw [if_neg low, if_pos high, if_neg (by omega), contains_plain (by omega)]
      omega
    · rw [if_neg low, if_neg high, if_neg (by omega), contains_plain plain]
      omega

theorem unionWrapped_mixed {r cr : ConstantRange w} (wrapped : r.upper.toNat < r.lower.toNat)
    (plain' : cr.lower.toNat < cr.upper.toNat) :
    Apart r cr ∧ r.unionWrapped cr = getPreferredRange ⟨r.lower, cr.upper⟩ ⟨cr.lower, r.upper⟩ ∨
      ¬ Apart r cr ∧ ∀ v, (r.unionWrapped cr).contains v = true ↔ r.contains v = true ∨ cr.contains v = true := by
  obtain ⟨l, u⟩ := r
  obtain ⟨l', u'⟩ := cr
  dsimp only at wrapped plain'
  unfold Apart unionWrapped
  simp only [← Bool.not_eq_true]
  simp only [contains_wrapped wrapped, contains_plain plain', isUpperWrapped, BitVec.lt_def, BitVec.le_def,
    Nat.lt_asymm plain', wrapped, decide_false, decide_true, Bool.not_true, Bool.not_false, if_true, ne_eq,
    BitVec.toNat_eq, Bool.false_and, Bool.false_eq_true, if_false]
  split_ifs
  · refine .inr ⟨by omega, fun v => ?_⟩
    rw [contains_wrapped wrapped]
    omega
  · exact .inr ⟨by omega, fun v => iff_of_true (getFull_contains v) (by omega)⟩
  · exact .inl ⟨by omega, rfl⟩
  · refine .inr ⟨by omega, fun v => ?_⟩
    rw [contains_wrapped (by omega)]
    omega
  · refine .inr ⟨by omega, fun v => ?_⟩
    rw [contains_wrapped (by omega)]
    omega

theorem unionWrapped_wrapped {r cr : ConstantRange w} (wrapped : r.upper.toNat < r.lower.toNat)
    (wrapped' : cr.upper.toNat < cr.lower.toNat) :
    ¬ Apart r cr ∧ ∀ v, (r.unionWrapped cr).contains v = true ↔ r.contains v = true ∨ cr.contains v = true := by
  obtain ⟨l, u⟩ := r
  obtain ⟨l', u'⟩ := cr
  dsimp only at wrapped wrapped'
  unfold Apart unionWrapped
  simp only [← Bool.not_eq_true]
  simp only [contains_wrapped wrapped, contains_wrapped wrapped', isUpperWrapped, BitVec.lt_def, BitVec.le_def,
    wrapped', wrapped, decide_true, Bool.not_true, ne_eq, BitVec.toNat_eq, Bool.false_and, Bool.false_eq_true,
    if_false]
  by_cases whole : l'.toNat ≤ u.toNat ∨ l.toNat ≤ u'.toNat
  · rw [if_pos whole]
    exact ⟨by omega, fun v => iff_of_true (getFull_contains v) (by omega)⟩
  · rw [if_neg whole]
    refine ⟨by omega, fun v => ?_⟩
    by_cases low : l'.toNat < l.toNat <;> by_cases high : u.toNat < u'.toNat
    · rw [if_pos low, if_pos high, contains_wrapped wrapped']
      omega
    · rw [if_pos low, if_neg high, contains_wrapped (by omega)]
      omega
    · rw [if_neg low, if_pos high, contains_wrapped (by omega)]
      omega
    · rw [if_neg low, if_neg high, contains_wrapped wrapped]
      omega

theorem unionWrapped_cases {r cr : ConstantRange w} (hr : r.Proper) (hcr : cr.Proper)
    (order : ¬ (r.isUpperWrapped = false ∧ cr.isUpperWrapped = true)) :
    Apart r cr ∧ r.unionWrapped cr = getPreferredRange ⟨r.lower, cr.upper⟩ ⟨cr.lower, r.upper⟩ ∨
      ¬ Apart r cr ∧ ∀ v, (r.unionWrapped cr).contains v = true ↔ r.contains v = true ∨ cr.contains v = true := by
  rcases wrapped_cases hr hcr order with ⟨plain, plain'⟩ | ⟨wrapped, plain'⟩ | ⟨wrapped, wrapped'⟩
  · exact unionWrapped_plain plain plain'
  · exact unionWrapped_mixed wrapped plain'
  · exact .inr (unionWrapped_wrapped wrapped wrapped')

/-- Where the operands were exchanged, or not, the wrapped one comes first. -/
theorem straight_of_turned {r cr : ConstantRange w} (turn : (!r.isUpperWrapped && cr.isUpperWrapped) = true) :
    ¬ (cr.isUpperWrapped = false ∧ r.isUpperWrapped = true) := by
  rw [Bool.and_eq_true, Bool.not_eq_true'] at turn
  rw [turn.1, turn.2]
  exact fun wrapped => Bool.false_ne_true wrapped.2

theorem straight_of_kept {r cr : ConstantRange w} (turn : (!r.isUpperWrapped && cr.isUpperWrapped) = false) :
    ¬ (r.isUpperWrapped = false ∧ cr.isUpperWrapped = true) := by
  intro ⟨plain, wrapped⟩
  rw [plain, wrapped] at turn
  cases turn

theorem Apart.symm {r cr : ConstantRange w} (apart : Apart r cr) : Apart cr r :=
  ⟨apart.2.1, apart.1, apart.2.2.2, apart.2.2.1⟩

/-- The arc from the first of two ranges to the second holds both and the gap between them. -/
theorem Apart.span {r cr : ConstantRange w} (apart : Apart r cr) (hr : r.Proper) (hcr : cr.Proper) (v : BitVec w) :
    (⟨r.lower, cr.upper⟩ : ConstantRange w).contains v = true ↔
      r.contains v = true ∨ cr.contains v = true ∨ (⟨r.upper, cr.lower⟩ : ConstantRange w).contains v = true := by
  obtain ⟨outside, outside', after, before⟩ := apart
  have spanned : (⟨r.lower, cr.upper⟩ : ConstantRange w).Proper := fun same => before same.symm
  have between : (⟨r.upper, cr.lower⟩ : ConstantRange w).Proper := after
  have outer := spanned.ends
  have inner := between.ends
  have ends := hr.ends
  have ends' := hcr.ends
  simp only [← Bool.not_eq_true] at outside outside'
  rw [contains_arc hcr] at outside
  rw [contains_arc hr] at outside'
  rw [contains_arc hr, contains_arc hcr, contains_arc spanned, contains_arc between]
  dsimp only at outer inner ⊢
  omega

/-- Whether the union of two ranges that are apart runs from the first to the second. -/
def closesForward (r cr : ConstantRange w) : Bool :=
  let around : ConstantRange w := ⟨cr.lower, r.upper⟩
  let across : ConstantRange w := ⟨r.lower, cr.upper⟩
  if !r.isUpperWrapped && cr.isUpperWrapped then !around.isSizeStrictlySmallerThan across
  else across.isSizeStrictlySmallerThan around

theorem unionWith_cases {r cr : ConstantRange w} (hr : r.Proper) (hcr : cr.Proper) :
    Apart r cr ∧ r.unionWith cr = (if closesForward r cr then ⟨r.lower, cr.upper⟩ else ⟨cr.lower, r.upper⟩) ∨
      ¬ Apart r cr ∧ ∀ v, (r.unionWith cr).contains v = true ↔ r.contains v = true ∨ cr.contains v = true := by
  have order : r.unionWith cr =
      if !r.isUpperWrapped && cr.isUpperWrapped then cr.unionWrapped r else r.unionWrapped cr := by
    rw [unionWith, hr.notFull, hcr.notEmpty, hcr.notFull, hr.notEmpty]
    rfl
  rw [order]
  unfold closesForward
  cases turn : !r.isUpperWrapped && cr.isUpperWrapped with
  | true =>
    rcases unionWrapped_cases hcr hr (straight_of_turned turn) with ⟨apart, closed⟩ | ⟨near, exactly⟩
    · refine .inl ⟨apart.symm, closed.trans ?_⟩
      dsimp only
      rw [getPreferredRange, if_pos rfl]
      cases (⟨cr.lower, r.upper⟩ : ConstantRange w).isSizeStrictlySmallerThan ⟨r.lower, cr.upper⟩ <;> rfl
    · exact .inr ⟨fun apart => near apart.symm, fun v => (exactly v).trans or_comm⟩
  | false =>
    exact unionWrapped_cases hr hcr (straight_of_kept turn)

/-- The integers that the union adds to two ranges that are apart. -/
def closedGap (r cr : ConstantRange w) : ConstantRange w :=
  if closesForward r cr then ⟨r.upper, cr.lower⟩ else ⟨cr.upper, r.lower⟩

theorem contains_unionWith {r cr : ConstantRange w} (hr : r.Proper) (hcr : cr.Proper) (v : BitVec w) :
    (r.unionWith cr).contains v = true ↔
      r.contains v = true ∨ cr.contains v = true ∨ Apart r cr ∧ (closedGap r cr).contains v = true := by
  rcases unionWith_cases hr hcr with ⟨apart, closed⟩ | ⟨near, exactly⟩
  · rw [closed, closedGap]
    cases closesForward r cr with
    | true =>
      have span := apart.span hr hcr v
      simpa [apart] using span
    | false =>
      have span := apart.symm.span hcr hr v
      rw [or_left_comm] at span
      simpa [apart] using span
  · rw [exactly]
    simp [near]

/-- Which of two crossing ranges `intersectWith` returns. -/
def keepsFirst (r cr : ConstantRange w) : Bool :=
  if !r.isUpperWrapped && cr.isUpperWrapped then !cr.isSizeStrictlySmallerThan r
  else r.isSizeStrictlySmallerThan cr

theorem Crossing.symm {r cr : ConstantRange w} (crossing : Crossing r cr) : Crossing cr r :=
  ⟨crossing.1.symm, crossing.2.2, crossing.2.1⟩

theorem intersectWith_cases {r cr : ConstantRange w} (hr : r.Proper) (hcr : cr.Proper) :
    Crossing r cr ∧ r.intersectWith cr = (if keepsFirst r cr then r else cr) ∨
      ¬ Crossing r cr ∧ ∀ v, (r.intersectWith cr).contains v = true ↔ r.contains v = true ∧ cr.contains v = true := by
  have order : r.intersectWith cr =
      if !r.isUpperWrapped && cr.isUpperWrapped then cr.intersectWrapped r else r.intersectWrapped cr := by
    rw [intersectWith, hr.notFull, hcr.notEmpty, hcr.notFull, hr.notEmpty]
    rfl
  rw [order]
  unfold keepsFirst
  cases turn : !r.isUpperWrapped && cr.isUpperWrapped with
  | true =>
    rcases intersectWrapped_cases hcr hr (straight_of_turned turn) with ⟨crossing, kept⟩ | ⟨single, exactly⟩
    · refine .inl ⟨crossing.symm, kept.trans ?_⟩
      rw [getPreferredRange]
      cases cr.isSizeStrictlySmallerThan r <;> rfl
    · exact .inr ⟨fun crossing => single crossing.symm, fun v => (exactly v).trans and_comm⟩
  | false =>
    exact intersectWrapped_cases hr hcr (straight_of_kept turn)

theorem intersectWith_left_full {r cr : ConstantRange w} (full : r.isFullSet = true) :
    r.intersectWith cr = r ∧ (cr.isFullSet = true ∨ r.isEmptySet = true) ∨ r.intersectWith cr = cr := by
  unfold intersectWith
  rw [full, Bool.or_true, if_pos rfl]
  cases empty : r.isEmptySet with
  | true => exact .inl ⟨rfl, .inr rfl⟩
  | false =>
    cases full' : cr.isFullSet with
    | true => exact .inl ⟨rfl, .inl rfl⟩
    | false => exact .inr rfl

theorem intersectWith_right_full {r cr : ConstantRange w} (full : cr.isFullSet = true) : r.intersectWith cr = r := by
  rw [intersectWith, full, Bool.or_true, if_pos rfl]

/-- An intersection keeps what both ranges contain. -/
theorem contains_intersectWith {r cr : ConstantRange w} {v : BitVec w} (first : r.contains v = true)
    (second : cr.contains v = true) : (r.intersectWith cr).contains v = true := by
  cases full : r.isFullSet with
  | true =>
    rcases intersectWith_left_full full with ⟨same, _⟩ | same
    · rw [same]
      exact first
    · rw [same]
      exact second
  | false =>
    cases full' : cr.isFullSet with
    | true =>
      rw [intersectWith_right_full full']
      exact first
    | false =>
      rcases intersectWith_cases (.of_contains first full) (.of_contains second full') with ⟨_, kept⟩ | ⟨_, exactly⟩
      · rw [kept]
        split_ifs
        · exact first
        · exact second
      · exact (exactly v).mpr ⟨first, second⟩

/-- Intersecting a range that holds some integers with another keeps them all when the
other holds them too, or when the two cross and the first is returned. -/
theorem intersectWith_keeps_iff {r cr : ConstantRange w} {some : BitVec w → Prop} {a b : BitVec w} (here : some a)
    (inside : ∀ v, some v → r.contains v = true) (other : cr.contains b = true)
    (wide : (0 : BitVec w) ≠ BitVec.allOnes w) :
    (∀ v, some v → (r.intersectWith cr).contains v = true) ↔
      (∀ v, some v → cr.contains v = true) ∨
        r.isFullSet = false ∧ cr.isFullSet = false ∧ Crossing r cr ∧ keepsFirst r cr = true := by
  cases full : r.isFullSet with
  | true =>
    simp only [Bool.true_eq_false, false_and, or_false]
    rcases intersectWith_left_full full with ⟨same, full' | empty⟩ | same
    · rw [same]
      exact iff_of_true inside fun v _ => full_contains full' v
    · have zero := (of_decide_eq_true empty).2
      exact absurd (zero.symm.trans (of_decide_eq_true full).2) wide
    · rw [same]
  | false =>
    cases full' : cr.isFullSet with
    | true =>
      rw [intersectWith_right_full full']
      exact iff_of_true inside (.inl fun v _ => full_contains full' v)
    | false =>
      simp only [true_and]
      rcases intersectWith_cases (.of_contains (inside a here) full) (.of_contains other full') with
        ⟨crossing, kept⟩ | ⟨single, exactly⟩
      · rw [kept]
        cases keepsFirst r cr with
        | true => exact iff_of_true inside (.inr ⟨crossing, rfl⟩)
        | false => simp
      · simp only [single, false_and, or_false]
        exact ⟨fun all v member => ((exactly v).mp (all v member)).2,
          fun all v member => (exactly v).mpr ⟨inside v member, all v member⟩⟩

/-! What the constructor asserts: equal ends stand for the full or the empty set. -/

def Valid (r : ConstantRange w) : Prop := r.lower = r.upper → r.isFullSet = true ∨ r.isEmptySet = true

instance (r : ConstantRange w) : Decidable r.Valid :=
  inferInstanceAs (Decidable (r.lower = r.upper → r.isFullSet = true ∨ r.isEmptySet = true))

theorem Proper.valid {r : ConstantRange w} (proper : r.Proper) : r.Valid := fun same => absurd same proper

theorem valid_full : (getFull : ConstantRange w).Valid := fun _ => .inl (decide_eq_true ⟨rfl, rfl⟩)

theorem valid_empty : (getEmpty : ConstantRange w).Valid := fun _ => .inr (decide_eq_true ⟨rfl, rfl⟩)

theorem Valid.proper {r : ConstantRange w} (valid : r.Valid) (notFull : r.isFullSet = false)
    (notEmpty : r.isEmptySet = false) : r.Proper := by
  intro same
  rcases valid same with full | empty
  · rw [full] at notFull
    cases notFull
  · rw [empty] at notEmpty
    cases notEmpty

theorem getPreferredRange_proper {r cr : ConstantRange w} (hr : r.Proper) (hcr : cr.Proper) :
    (getPreferredRange r cr).Proper := by
  unfold getPreferredRange
  split_ifs
  · exact hr
  · exact hcr

theorem intersectWrapped_valid {r cr : ConstantRange w} (hr : r.Proper) (hcr : cr.Proper) :
    (r.intersectWrapped cr).Valid := by
  have ends {a b : BitVec w} (apart : a.toNat ≠ b.toNat) : (⟨a, b⟩ : ConstantRange w).Valid :=
    Proper.valid (mt (congrArg BitVec.toNat) apart)
  unfold intersectWrapped
  simp only [isUpperWrapped, BitVec.lt_def, BitVec.le_def, Bool.and_eq_true, Bool.not_eq_true', decide_eq_false_iff_not]
  split_ifs
  all_goals first
    | exact hr.valid
    | exact hcr.valid
    | exact valid_empty
    | exact (getPreferredRange_proper hr hcr).valid
    | exact ends (by omega)

theorem unionWrapped_valid {r cr : ConstantRange w} (hr : r.Proper) (hcr : cr.Proper)
    (order : ¬ (r.isUpperWrapped = false ∧ cr.isUpperWrapped = true)) : (r.unionWrapped cr).Valid := by
  have ends {a b : BitVec w} (apart : a.toNat ≠ b.toNat) : (⟨a, b⟩ : ConstantRange w).Proper :=
    mt (congrArg BitVec.toNat) apart
  obtain ⟨l, u⟩ := r
  obtain ⟨l', u'⟩ := cr
  have lu : l.toNat ≠ u.toNat := hr.ends
  have lu' : l'.toNat ≠ u'.toNat := hcr.ends
  unfold unionWrapped
  simp only [isUpperWrapped, BitVec.lt_def, BitVec.le_def, Bool.and_eq_true, Bool.not_eq_true', decide_eq_false_iff_not,
    decide_eq_true_eq] at order ⊢
  split_ifs
  all_goals first
    | exact hr.valid
    | exact hcr.valid
    | exact valid_full
    | exact (ends (by omega)).valid
    | exact (getPreferredRange_proper (ends (by omega)) (ends (by omega))).valid

theorem Valid.intersectWith {r cr : ConstantRange w} (hr : r.Valid) (hcr : cr.Valid) : (r.intersectWith cr).Valid := by
  unfold ConstantRange.intersectWith
  split_ifs with first second turn
  · exact hr
  · exact hcr
  all_goals
    simp only [Bool.or_eq_true, not_or, Bool.not_eq_true] at first second
    have proper := hr.proper second.2 first.1
    have proper' := hcr.proper first.2 second.1
  · exact intersectWrapped_valid proper' proper
  · exact intersectWrapped_valid proper proper'

theorem Valid.unionWith {r cr : ConstantRange w} (hr : r.Valid) (hcr : cr.Valid) : (r.unionWith cr).Valid := by
  unfold ConstantRange.unionWith
  split_ifs with first second turn
  · exact hr
  · exact hcr
  all_goals
    simp only [Bool.or_eq_true, not_or, Bool.not_eq_true] at first second
    have proper := hr.proper first.1 second.2
    have proper' := hcr.proper second.1 first.2
  · exact unionWrapped_valid proper' proper (straight_of_turned turn)
  · exact unionWrapped_valid proper proper' (straight_of_kept (Bool.eq_false_iff.mpr turn))

/-- The intersection is two arcs, and the second range is returned in place of the first. -/
structure Swaps (r cr : ConstantRange w) : Prop where
  proper : r.Proper
  proper' : cr.Proper
  crossing : Crossing r cr
  second : keepsFirst r cr = false

/-- The intersection is two arcs, and the first range is returned as it is. -/
structure Keeps (r cr : ConstantRange w) : Prop where
  proper : r.Proper
  proper' : cr.Proper
  crossing : Crossing r cr
  first : keepsFirst r cr = true

/-- With a full or an empty range the intersection is exact. -/
theorem contains_intersectWith_whole {r cr : ConstantRange w} (hr : r.Valid) (hcr : cr.Valid)
    (wide : (0 : BitVec w) ≠ BitVec.allOnes w) (whole : ¬ (r.Proper ∧ cr.Proper)) (v : BitVec w) :
    (r.intersectWith cr).contains v = true ↔ r.contains v = true ∧ cr.contains v = true := by
  unfold intersectWith
  split_ifs with first second turn
  · rcases Bool.or_eq_true_iff.mp first with empty | full
    · simp only [empty_contains empty wide, Bool.false_eq_true, false_and]
    · simp only [full_contains full, and_true]
  · rcases Bool.or_eq_true_iff.mp second with empty | full
    · simp only [empty_contains empty wide, Bool.false_eq_true, and_false]
    · simp only [full_contains full, true_and]
  all_goals
    simp only [Bool.or_eq_true, not_or, Bool.not_eq_true] at first second
    exact absurd ⟨hr.proper second.2 first.1, hcr.proper first.2 second.1⟩ whole

/-- What an intersection holds: the integers of both ranges, or all of the range returned
in place of two arcs. -/
theorem contains_intersectWith_iff {r cr : ConstantRange w} (hr : r.Valid) (hcr : cr.Valid)
    (wide : (0 : BitVec w) ≠ BitVec.allOnes w) (v : BitVec w) :
    (r.intersectWith cr).contains v = true ↔
      r.contains v = true ∧ cr.contains v = true ∨ Swaps r cr ∧ cr.contains v = true ∨ Keeps r cr ∧ r.contains v = true := by
  by_cases proper : r.Proper ∧ cr.Proper
  · rcases intersectWith_cases proper.1 proper.2 with ⟨crossing, kept⟩ | ⟨single, exactly⟩
    · rw [kept]
      cases which : keepsFirst r cr with
      | true =>
        have keeps : Keeps r cr := ⟨proper.1, proper.2, crossing, which⟩
        have stays : ¬ Swaps r cr := fun swaps => Bool.false_ne_true (swaps.second.symm.trans which)
        simp only [if_true, keeps, stays, true_and, false_and, false_or]
        exact ⟨.inr, fun inside => inside.elim And.left id⟩
      | false =>
        have swaps : Swaps r cr := ⟨proper.1, proper.2, crossing, which⟩
        have goes : ¬ Keeps r cr := fun keeps => Bool.false_ne_true (which.symm.trans keeps.first)
        simp only [Bool.false_eq_true, if_false, swaps, goes, true_and, false_and, or_false]
        exact ⟨.inr, fun inside => inside.elim And.right id⟩
    · have stays : ¬ Swaps r cr := fun swaps => single swaps.crossing
      have goes : ¬ Keeps r cr := fun keeps => single keeps.crossing
      simp only [exactly, stays, goes, false_and, or_false]
  · have stays : ¬ Swaps r cr := fun swaps => proper ⟨swaps.proper, swaps.proper'⟩
    have goes : ¬ Keeps r cr := fun keeps => proper ⟨keeps.proper, keeps.proper'⟩
    rw [contains_intersectWith_whole hr hcr wide proper]
    simp only [stays, goes, false_and, or_false]

end ConstantRange
end Llvm

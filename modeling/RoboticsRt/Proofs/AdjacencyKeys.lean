import RoboticsRt.Proofs.BroadPhase
import RoboticsRt.RobotScene

/-! Which pairs of links the narrow phase skips. A pair of names is one string in the set of
adjacent pairs, and the separator in it can be read at more than one place. -/

namespace RoboticsRt

/-- The key of `(a, b)` is that of `(c, d)`, with the separator read further to the right. -/
inductive Shifted (a b c d : String) : Prop
  | byOne (left : c = a ++ ":") (right : b = ":" ++ d)
  | byTwo (left : c = a ++ "::") (right : b = "::" ++ d)
  | past (between : String) (left : c = a ++ ":::" ++ between) (right : b = between ++ ":::" ++ d)

def Confusable (a b c d : String) : Prop := Shifted a b c d ∨ Shifted c d a b

theorem separator_overlap (between b d : List Char) :
    [':', ':', ':'] ++ b = between ++ ([':', ':', ':'] ++ d) ↔
      (between = [] ∧ b = d) ∨ (between = [':'] ∧ b = ':' :: d) ∨ (between = [':', ':'] ∧ b = ':' :: ':' :: d) ∨
        ∃ rest, between = ':' :: ':' :: ':' :: rest ∧ b = rest ++ ([':', ':', ':'] ++ d) := by
  match between with
  | [] => simp
  | [first] => simp; grind
  | [first, second] => simp; grind
  | first :: second :: third :: rest => simp; grind

theorem Shifted.key {a b c d : String} (shifted : Shifted a b c d) : a ++ ":::" ++ b = c ++ ":::" ++ d := by
  cases shifted with
  | byOne left right => rw [left, right, ← String.toList_inj]; simp
  | byTwo left right => rw [left, right, ← String.toList_inj]; simp
  | past between left right => rw [left, right, ← String.toList_inj]; simp

theorem shifted_of_append {a b c d : String} {between : List Char} (left : c.toList = a.toList ++ between)
    (right : [':', ':', ':'] ++ b.toList = between ++ ([':', ':', ':'] ++ d.toList)) :
    (a = c ∧ b = d) ∨ Shifted a b c d := by
  have text {s t : String} (same : s.toList = t.toList) : s = t := String.toList_inj.mp same
  rcases (separator_overlap _ _ _).mp right with ⟨rfl, rest⟩ | ⟨rfl, rest⟩ | ⟨rfl, rest⟩ | ⟨between, rfl, rest⟩
  · exact Or.inl ⟨(text (by simpa using left)).symm, text rest⟩
  · exact Or.inr (.byOne (text (by simpa using left)) (text (by simpa using rest)))
  · exact Or.inr (.byTwo (text (by simpa using left)) (text (by simpa using rest)))
  · exact Or.inr (.past (String.ofList between) (text (by simpa using left)) (text (by simpa using rest)))

/-- The separator is no bar against confusion: reading it further to the right, or to the left,
gives another pair of names with the same key. There is no third way. -/
theorem key_eq_iff {a b c d : String} : a ++ ":::" ++ b = c ++ ":::" ++ d ↔ (a = c ∧ b = d) ∨ Confusable a b c d := by
  constructor
  · intro same
    have text : a.toList ++ ([':', ':', ':'] ++ b.toList) = c.toList ++ ([':', ':', ':'] ++ d.toList) := by
      simpa using congrArg String.toList same
    rcases List.append_eq_append_iff.mp text with ⟨between, left, right⟩ | ⟨between, left, right⟩
    · exact (shifted_of_append left right).imp_right Or.inl
    · rcases shifted_of_append left right with ⟨first, second⟩ | shifted
      · exact Or.inl ⟨first.symm, second.symm⟩
      · exact Or.inr (Or.inr shifted)
  · rintro (⟨rfl, rfl⟩ | shifted | shifted)
    · rfl
    · exact shifted.key
    · exact shifted.key.symm

theorem Shifted.colon {a b c d : String} (shifted : Shifted a b c d) : ':' ∈ b.toList ∧ ':' ∈ c.toList := by
  cases shifted with
  | byOne left right => rw [left, right]; simp
  | byTwo left right => rw [left, right]; simp
  | past between left right => rw [left, right]; simp

section Joints
variable {K : Type}

def Joint.Connects (joint : Joint K) (a b : String) : Prop :=
  (joint.parentLinkName = a ∧ joint.childLinkName = b) ∨ (joint.parentLinkName = b ∧ joint.childLinkName = a)

def Adjacent (joints : List (Joint K)) (a b : String) : Prop := ∃ joint ∈ joints, joint.Connects a b

/-- The pair of a joint between named links is a shift of this pair, in one of the orders. -/
structure Joint.Confused (joint : Joint K) (a b : String) : Prop where
  parent : joint.parentLinkName ≠ ""
  child : joint.childLinkName ≠ ""
  shifted : (Confusable a b joint.parentLinkName joint.childLinkName ∨
      Confusable a b joint.childLinkName joint.parentLinkName) ∨
    (Confusable b a joint.parentLinkName joint.childLinkName ∨
      Confusable b a joint.childLinkName joint.parentLinkName)

structure Joint.Adds (joint : Joint K) (key : String) : Prop where
  parent : joint.parentLinkName ≠ ""
  child : joint.childLinkName ≠ ""
  key : key = joint.parentLinkName ++ ":::" ++ joint.childLinkName ∨
    key = joint.childLinkName ++ ":::" ++ joint.parentLinkName

theorem Joint.adds_iff (joint : Joint K) {a b : String} (first : a ≠ "") (second : b ≠ "") :
    joint.Adds (a ++ ":::" ++ b) ∨ joint.Adds (b ++ ":::" ++ a) ↔ joint.Connects a b ∨ joint.Confused a b := by
  constructor
  · rintro (⟨parent, child, same | same⟩ | ⟨parent, child, same | same⟩)
    · rcases key_eq_iff.mp same with ⟨left, right⟩ | shifted
      · exact Or.inl (Or.inl ⟨left.symm, right.symm⟩)
      · exact Or.inr ⟨parent, child, Or.inl (Or.inl shifted)⟩
    · rcases key_eq_iff.mp same with ⟨left, right⟩ | shifted
      · exact Or.inl (Or.inr ⟨right.symm, left.symm⟩)
      · exact Or.inr ⟨parent, child, Or.inl (Or.inr shifted)⟩
    · rcases key_eq_iff.mp same with ⟨left, right⟩ | shifted
      · exact Or.inl (Or.inr ⟨left.symm, right.symm⟩)
      · exact Or.inr ⟨parent, child, Or.inr (Or.inl shifted)⟩
    · rcases key_eq_iff.mp same with ⟨left, right⟩ | shifted
      · exact Or.inl (Or.inl ⟨right.symm, left.symm⟩)
      · exact Or.inr ⟨parent, child, Or.inr (Or.inr shifted)⟩
  · rintro ((⟨rfl, rfl⟩ | ⟨rfl, rfl⟩) | ⟨parent, child, (shifted | shifted) | (shifted | shifted)⟩)
    · exact Or.inl ⟨first, second, Or.inl rfl⟩
    · exact Or.inr ⟨second, first, Or.inl rfl⟩
    · exact Or.inl ⟨parent, child, Or.inl (key_eq_iff.mpr (Or.inr shifted))⟩
    · exact Or.inl ⟨parent, child, Or.inr (key_eq_iff.mpr (Or.inr shifted))⟩
    · exact Or.inr ⟨parent, child, Or.inl (key_eq_iff.mpr (Or.inr shifted))⟩
    · exact Or.inr ⟨parent, child, Or.inr (key_eq_iff.mpr (Or.inr shifted))⟩

theorem mem_keys {joints : List (Joint K)} {key : String} :
    key ∈ buildAdjacencyList (UrdfRobotModel.extractAdjacentPairs joints) ↔ ∃ joint ∈ joints, joint.Adds key := by
  have emptiness (name : String) : name.isEmpty = true ↔ name = "" := String.isEmpty_iff
  simp only [buildAdjacencyList, UrdfRobotModel.extractAdjacentPairs, List.mem_flatMap, List.mem_filterMap]
  constructor
  · rintro ⟨pair, ⟨joint, member, kept⟩, keyed⟩
    split at kept
    · cases kept
    next named =>
      cases kept
      rw [Bool.or_eq_true, emptiness, emptiness, not_or] at named
      exact ⟨joint, member, named.1, named.2, by simpa using keyed⟩
  · rintro ⟨joint, member, parent, child, keyed⟩
    refine ⟨(joint.parentLinkName, joint.childLinkName), ⟨joint, member, if_neg ?_⟩, by simpa using keyed⟩
    rw [Bool.or_eq_true, emptiness, emptiness, not_or]
    exact ⟨parent, child⟩

end Joints

namespace NarrowPhaseCallback
variable {Obj : Type} [DecidableEq Obj]

/-- The callback goes on without asking the narrow phase, whatever its answer would be. -/
def Skips (cb : NarrowPhaseCallback Obj) (o1 o2 : Obj) : Prop :=
  ∀ narrow collided, cb.collide narrow o1 o2 collided = (collided, false)

end NarrowPhaseCallback

namespace CollisionScene
variable {Obj : Type} [DecidableEq Obj] {K : Type} {scene : CollisionScene Obj} {joints : List (Joint K)}

def ExemptsAdjacent (scene : CollisionScene Obj) (joints : List (Joint K)) : Prop :=
  ∀ a ∈ scene.linkObjects, ∀ b ∈ scene.linkObjects,
    scene.callback.Skips a.collisionObj b.collisionObj ↔ Adjacent joints a.linkName b.linkName

theorem skips_iff_excluded {a b : LinkObject Obj} (first : a ∈ scene.linkObjects) (second : b ∈ scene.linkObjects) :
    scene.callback.Skips a.collisionObj b.collisionObj ↔ scene.excluded a b = true := by
  obtain ⟨idx1, found1, name1⟩ := scene.findPtr_link first
  obtain ⟨idx2, found2, name2⟩ := scene.findPtr_link second
  have names : scene.callback.names = scene.names := rfl
  have keys : scene.callback.adjacent = scene.adjacentPairs := rfl
  have asked (narrow : NarrowPhase Obj) (collided : Bool) :
      scene.callback.collide narrow a.collisionObj b.collisionObj collided =
        if scene.excluded a b then (collided, false)
        else if narrow.contact a.collisionObj b.collisionObj then (true, true) else (collided, false) := by
    rw [NarrowPhaseCallback.collide, found1, found2]
    dsimp only
    rw [names, keys, name1, name2, excluded]
  constructor
  · intro skips
    by_contra kept
    have touching := skips ⟨fun _ _ => true, fun _ _ => rfl⟩ false
    rw [asked, if_neg kept] at touching
    cases touching
  · intro excluded narrow collided
    rw [asked, if_pos excluded]

omit [DecidableEq Obj] in
theorem excluded_iff (built : scene.adjacentPairs = buildAdjacencyList (UrdfRobotModel.extractAdjacentPairs joints))
    {a b : LinkObject Obj} (first : a.linkName ≠ "") (second : b.linkName ≠ "") :
    scene.excluded a b = true ↔
      Adjacent joints a.linkName b.linkName ∨ ∃ joint ∈ joints, joint.Confused a.linkName b.linkName := by
  rw [excluded, Bool.or_eq_true, List.contains_iff_mem, List.contains_iff_mem, built, mem_keys, mem_keys, Adjacent,
    ← exists_or, ← exists_or]
  apply exists_congr
  intro joint
  rw [← and_or_left, ← and_or_left, joint.adds_iff first second]

theorem skips_iff (built : scene.adjacentPairs = buildAdjacencyList (UrdfRobotModel.extractAdjacentPairs joints))
    (named : ∀ link ∈ scene.linkObjects, link.linkName ≠ "") {a b : LinkObject Obj} (first : a ∈ scene.linkObjects)
    (second : b ∈ scene.linkObjects) : scene.callback.Skips a.collisionObj b.collisionObj ↔
      Adjacent joints a.linkName b.linkName ∨ ∃ joint ∈ joints, joint.Confused a.linkName b.linkName :=
  (skips_iff_excluded first second).trans (excluded_iff built (named a first) (named b second))

/-- A pair confused with one joint is harmless where another joint connects it, so the condition
asks about all joints of the model. -/
theorem exempts_adjacent_iff
    (built : scene.adjacentPairs = buildAdjacencyList (UrdfRobotModel.extractAdjacentPairs joints))
    (named : ∀ link ∈ scene.linkObjects, link.linkName ≠ "") :
    scene.ExemptsAdjacent joints ↔ ∀ a ∈ scene.linkObjects, ∀ b ∈ scene.linkObjects, ∀ joint ∈ joints,
      joint.Confused a.linkName b.linkName → Adjacent joints a.linkName b.linkName := by
  constructor
  · intro exempts a first b second joint member confused
    exact (exempts a first b second).mp ((skips_iff built named first second).mpr (Or.inr ⟨joint, member, confused⟩))
  · intro unambiguous a first b second
    rw [skips_iff built named first second]
    constructor
    · rintro (adjacent | ⟨joint, member, confused⟩)
      · exact adjacent
      · exact unambiguous a first b second joint member confused
    · exact Or.inl

theorem plain_names_exempt
    (built : scene.adjacentPairs = buildAdjacencyList (UrdfRobotModel.extractAdjacentPairs joints))
    (named : ∀ link ∈ scene.linkObjects, link.linkName ≠ "")
    (plain : ∀ link ∈ scene.linkObjects, ':' ∉ link.linkName.toList) : scene.ExemptsAdjacent joints := by
  have clear {a b : LinkObject Obj} (first : a ∈ scene.linkObjects) (second : b ∈ scene.linkObjects) (c d : String) :
      ¬ Confusable a.linkName b.linkName c d := by
    rintro (shifted | shifted)
    · exact plain b second shifted.colon.1
    · exact plain a first shifted.colon.2
  intro a first b second
  rw [skips_iff built named first second, or_iff_left]
  rintro ⟨joint, _, confused⟩
  rcases confused.shifted with (shifted | shifted) | (shifted | shifted)
  · exact clear first second _ _ shifted
  · exact clear first second _ _ shifted
  · exact clear second first _ _ shifted
  · exact clear second first _ _ shifted

end CollisionScene

/-! Two links `a:` and `b` beside a joint between links `a` and `:b`. -/

def colonJoint : Joint ℤ := ⟨"joint", "a", ":b", none, .fixed 1⟩

def colonLinks (first second : String) : CollisionScene Bool where
  linkObjects := [⟨first, false⟩, ⟨second, true⟩]
  adjacentPairs := buildAdjacencyList (UrdfRobotModel.extractAdjacentPairs [colonJoint])
  distinct := by
    change [false, true].Nodup
    decide

theorem strangers_exempt : ¬ (colonLinks "a:" "b").ExemptsAdjacent [colonJoint] := by
  intro exempts
  have first : ⟨"a:", false⟩ ∈ (colonLinks "a:" "b").linkObjects := List.mem_cons_self
  have second : ⟨"b", true⟩ ∈ (colonLinks "a:" "b").linkObjects := List.mem_cons_of_mem _ List.mem_cons_self
  have skipped := (CollisionScene.skips_iff_excluded first second).mpr (by decide)
  obtain ⟨joint, listed, connects⟩ := (exempts _ first _ second).mp skipped
  cases List.mem_singleton.mp listed
  rcases connects with ⟨parent, _⟩ | ⟨parent, _⟩
  · exact absurd parent (by decide)
  · exact absurd parent (by decide)

theorem neighbours_exempt_iff : (colonLinks "a" ":b").ExemptsAdjacent [colonJoint] ↔
    ∀ a ∈ (colonLinks "a" ":b").linkObjects, ∀ b ∈ (colonLinks "a" ":b").linkObjects, ∀ joint ∈ [colonJoint],
      joint.Confused a.linkName b.linkName → Adjacent [colonJoint] a.linkName b.linkName :=
  CollisionScene.exempts_adjacent_iff rfl (by decide)

end RoboticsRt

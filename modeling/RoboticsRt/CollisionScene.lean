import Mathlib.Order.Lattice

/-! Collision checking of the robot's links (`collision_scene.cpp`). Collision objects are
compared by address, so they are elements of a type with decidable equality; their boxes
and contacts in the current configuration are functions of the object. -/

namespace RoboticsRt

/-- `coal::AABB`: `min_` and `max_`. -/
structure AABB (α : Type) where
  minX : α
  minY : α
  minZ : α
  maxX : α
  maxY : α
  maxZ : α

/-- `coal::AABB::overlap` -/
def AABB.overlap {α : Type} [LinearOrder α] (a b : AABB α) : Bool :=
  a.minX ≤ b.maxX ∧ b.minX ≤ a.maxX ∧ a.minY ≤ b.maxY ∧ b.minY ≤ a.maxY ∧ a.minZ ≤ b.maxZ ∧ b.minZ ≤ a.maxZ

/-- `coal::collide` in the current configuration: touching is mutual. -/
structure NarrowPhase (Obj : Type) where
  contact : Obj → Obj → Bool
  symm : ∀ a b, contact a b = contact b a

structure LinkObject (Obj : Type) where
  linkName : String
  collisionObj : Obj

/-- The objects come from separate `make_shared` calls. -/
structure CollisionScene (Obj : Type) where
  linkObjects : List (LinkObject Obj)
  adjacentPairs : List String
  distinct : (linkObjects.map LinkObject.collisionObj).Nodup

/-- The references a `NarrowPhaseCallback` holds; its member `collided` is passed along. -/
structure NarrowPhaseCallback (Obj : Type) where
  ptrs : List Obj
  names : List String
  adjacent : List String

/-- What a broad phase does with a callback and the callback's state. -/
abbrev BroadPhase (Obj : Type) := (Obj → Obj → Bool → Bool × Bool) → Bool → Bool

variable {Obj : Type} [DecidableEq Obj]

def NarrowPhaseCallback.findPtr (cb : NarrowPhaseCallback Obj) (obj : Obj) : Option Nat :=
  cb.ptrs.findIdx? (· = obj)

/-- The new `collided` and whether to stop. -/
def NarrowPhaseCallback.collide (cb : NarrowPhaseCallback Obj) (narrow : NarrowPhase Obj) (o1 o2 : Obj)
    (collided : Bool) : Bool × Bool :=
  match cb.findPtr o1, cb.findPtr o2 with
  | some idx1, some idx2 =>
    let name1 := cb.names.getD idx1 ""
    let name2 := cb.names.getD idx2 ""
    if cb.adjacent.contains (name1 ++ ":::" ++ name2) || cb.adjacent.contains (name2 ++ ":::" ++ name1) then
      (collided, false)
    else if narrow.contact o1 o2 then (true, true)
    else (collided, false)
  | _, _ => (collided, false) -- an object the scene does not know

namespace CollisionScene

def ptrs (scene : CollisionScene Obj) : List Obj := scene.linkObjects.map LinkObject.collisionObj

def names (scene : CollisionScene Obj) : List String := scene.linkObjects.map LinkObject.linkName

def callback (scene : CollisionScene Obj) : NarrowPhaseCallback Obj :=
  ⟨scene.ptrs, scene.names, scene.adjacentPairs⟩

/-- True when the configuration is free of collisions. -/
def checkCollisions (scene : CollisionScene Obj) (narrow : NarrowPhase Obj) (broadphase : BroadPhase Obj) : Bool :=
  !broadphase (scene.callback.collide narrow) false

end CollisionScene
end RoboticsRt

import RoboticsRt.CollisionScene
import RoboticsRt.UrdfRobotModel
import Mathlib.Data.List.FinRange
import Mathlib.Tactic.FinCases

/-! The collision scene of a robot model with the state its checks change
(`collision_scene.cpp`): the transforms and boxes of the collision objects, and whatever
the broad-phase manager keeps. Objects have their place in `link_objects_` for address. -/

namespace RoboticsRt

/-- `coal::Transform3s` -/
@[ext]
structure Transform3s (K : Type) where
  R : Matrix (Fin 3) (Fin 3) K
  T : Fin 3 → K

/-- What coal computes from shapes and transforms. -/
structure Coal (Bvh K : Type) where
  computeAABB : Bvh → Transform3s K → AABB K
  collide : Bvh → Transform3s K → Bvh → Transform3s K → Bool
  symm : ∀ shape1 tf1 shape2 tf2, collide shape1 tf1 shape2 tf2 = collide shape2 tf2 shape1 tf1

/-- `coal::CollisionObject` -/
structure CollisionObject (Bvh K : Type) where
  cgeom : Bvh
  t : Transform3s K
  aabb : AABB K

structure LinkCollisionObject (Bvh K : Type) where
  linkName : String
  bvhModel : Bvh
  localTransform : Transform3s K

/-- A broad-phase manager. After `update` its answer depends only on the current boxes
and on what no check changes: the registered objects and how they were set up. -/
structure BroadPhaseManager (Obj α : Type) where
  State : Type
  Setup : Type
  create : State
  registerObject : State → Obj → AABB α → State
  setup : State → Option State -- `none` where it throws
  update : State → (Obj → AABB α) → State
  collide : State → (Obj → AABB α) → (Obj → Obj → Bool → Bool × Bool) → Bool → State × Bool
  fixed : State → Setup
  fixed_update : ∀ state boxes, fixed (update state boxes) = fixed state
  fixed_collide : ∀ state boxes callback collided, fixed (collide state boxes callback collided).1 = fixed state
  answer : ∀ one two boxes callback collided, fixed one = fixed two →
    (collide (update one boxes) boxes callback collided).2 = (collide (update two boxes) boxes callback collided).2

section Transforms
variable {K : Type} [CommRing K]

instance : One (Transform3s K) := ⟨⟨1, 0⟩⟩

instance : Mul (Transform3s K) := ⟨fun a b => ⟨a.R * b.R, a.R.mulVec b.T + a.T⟩⟩

def kdlToCoal (f : Frame K) : Transform3s K := ⟨Matrix.of fun r c => f.M r c, ![f.p 0, f.p 1, f.p 2]⟩

@[simp] theorem Transform3s.one_T : (1 : Transform3s K).T = 0 := rfl

@[simp] theorem Transform3s.mul_T (a b : Transform3s K) : (a * b).T = a.R.mulVec b.T + a.T := rfl

@[simp] theorem kdlToCoal_one : kdlToCoal (1 : Frame K) = 1 := by
  have origin : (kdlToCoal (1 : Frame K)).T = (1 : Transform3s K).T := by
    funext c
    fin_cases c <;> rfl
  exact Transform3s.ext rfl origin

end Transforms

/-- The members of a scene that no check changes. -/
structure RobotScene (Bvh K : Type) where
  model : UrdfRobotModel K
  linkObjects : List (LinkCollisionObject Bvh K)
  adjacentPairs : List String

def buildAdjacencyList (adjacentLinkPairs : List (String × String)) : List String :=
  adjacentLinkPairs.flatMap fun (a, b) => [a ++ ":::" ++ b, b ++ ":::" ++ a]

namespace RobotScene
variable {Bvh K : Type} [CommRing K]

/-- Meshes that fail to load are left out. -/
def load (loadMesh : String → Option Bvh) (model : UrdfRobotModel K) : RobotScene Bvh K where
  model
  linkObjects := model.linkMeshes.filterMap fun linkMesh =>
    (loadMesh linkMesh.meshPath).map fun bvh => ⟨linkMesh.linkName, bvh, kdlToCoal linkMesh.visualOffset⟩
  adjacentPairs := buildAdjacencyList model.adjacentLinkPairs

variable (scene : RobotScene Bvh K)

abbrev Obj : Type := Fin scene.linkObjects.length

def collisionScene : CollisionScene scene.Obj where
  linkObjects := (List.finRange scene.linkObjects.length).map fun i => ⟨(scene.linkObjects.get i).linkName, i⟩
  adjacentPairs := scene.adjacentPairs
  distinct := by
    rw [List.map_map]
    exact (List.nodup_finRange _).map fun _ _ same => same

structure State (manager : BroadPhaseManager scene.Obj K) where
  objects : scene.Obj → CollisionObject Bvh K
  broadphase : manager.State

variable (coal : Coal Bvh K) (manager : BroadPhaseManager scene.Obj K)

def newObject (bvh : Bvh) : CollisionObject Bvh K := ⟨bvh, 1, coal.computeAABB bvh 1⟩

/-- The state the constructor leaves. -/
def start : Option (scene.State manager) :=
  let objects (i : scene.Obj) := newObject coal (scene.linkObjects.get i).bvhModel
  let registered := (List.finRange scene.linkObjects.length).foldl
    (fun broadphase i => manager.registerObject broadphase i (objects i).aabb) manager.create
  (manager.setup registered).map fun broadphase => ⟨objects, broadphase⟩

/-- The transform an object gets in the loop, with its box; unchanged where there is no pose. -/
def placed (q : List K) (lco : LinkCollisionObject Bvh K) (obj : CollisionObject Bvh K) : CollisionObject Bvh K :=
  match scene.model.fkLink q lco.linkName with
  | none => obj
  | some linkWorld =>
    let tf := kdlToCoal linkWorld * lco.localTransform
    { obj with t := tf, aabb := coal.computeAABB obj.cgeom tf }

variable {scene} {manager}

def updateCollisionTransforms (q : List K) (state : scene.State manager) : scene.State manager :=
  let objects (i : scene.Obj) := scene.placed coal q (scene.linkObjects.get i) (state.objects i)
  { objects, broadphase := manager.update state.broadphase fun i => (objects i).aabb }

def narrowPhase (state : scene.State manager) : NarrowPhase scene.Obj where
  contact a b :=
    coal.collide (state.objects a).cgeom (state.objects a).t (state.objects b).cgeom (state.objects b).t
  symm _ _ := coal.symm _ _ _ _

/-- The verdict, and the state with what the manager has become. -/
def checkCollisions (state : scene.State manager) : Bool × scene.State manager :=
  let collide callback collided :=
    manager.collide state.broadphase (fun i => (state.objects i).aabb) callback collided
  let narrow := narrowPhase coal state
  (scene.collisionScene.checkCollisions narrow fun callback collided => (collide callback collided).2,
    { state with broadphase := (collide (scene.collisionScene.callback.collide narrow) false).1 })

def isCollisionFree (q : List K) (state : scene.State manager) : Bool × scene.State manager :=
  if q.length ≠ scene.model.numJoints then (false, state) -- joint size mismatch
  else checkCollisions coal (updateCollisionTransforms coal q state)

/-- The checker copies the first `numJoints()` values of the OMPL state. -/
def makeOMPLChecker (values : Nat → K) (state : scene.State manager) : Bool × scene.State manager :=
  isCollisionFree coal ((List.range scene.model.numJoints).map values) state

end RobotScene
end RoboticsRt

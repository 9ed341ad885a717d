import RoboticsRt.CollisionScene
import RoboticsRt.Library.EarlyExit
import Mathlib.Data.Nat.Sqrt

/-! The OpenCL broad phase (`coal_gpu_collision_manager.cpp`). A block of memory is its
size and what its addresses hold; an address past the size holds whatever lies behind the
block. Coordinates are narrowed from `α` to the device's `β` when boxes are extracted. The
kernels compute their indices in `int`, and natural numbers stand for these as long as there
are fewer than 2^31 work items and, where pairs are decoded, `8 * k + 1` stays below 2^31. -/

namespace RoboticsRt

structure Block (α : Type) where
  size : Nat
  contents : Nat → α

/-- Overwrite the first `count` entries. -/
def Block.write {α : Type} (block : Block α) (count : Nat) (source : Nat → α) : Block α :=
  { block with contents := fun k => if k < count then source k else block.contents k }

/-- `std::vector::resize`: entries up to the old size stay, new ones hold `value`. -/
def Block.resize {α : Type} (block : Block α) (count : Nat) (value : α) : Block α :=
  ⟨count, fun k => if k < block.size then block.contents k else if k < count then value else block.contents k⟩

def sizeofFloat : Nat := 4

def sizeofUchar : Nat := 1

structure CoalGPUCollisionManager (Obj β : Type) where
  objects : List Obj
  hasUnifiedMemory : Bool
  bufAabbs : Block β
  bufOverlapsSelf : Block UInt8
  bufDistancesSelf : Block β
  aabbsStaging : Block β
  overlapsStaging : Block UInt8
  distancesStaging : Block β

/-- What freshly allocated buffers, and the memory behind them, happen to hold. -/
structure Fresh (β : Type) where
  aabbs : Nat → β
  overlaps : Nat → UInt8
  distances : Nat → β

/-- A buffer of `bytes` bytes; OpenCL refuses an empty one. -/
def allocBuffer {α : Type} (bytes sizeof : Nat) (contents : Nat → α) : Option (Block α) :=
  if bytes = 0 then none else some ⟨bytes / sizeof, contents⟩

theorem allocBuffer_some {α : Type} {bytes sizeof : Nat} (positive : 0 < bytes) (contents : Nat → α) :
    allocBuffer bytes sizeof contents = some ⟨bytes / sizeof, contents⟩ := if_neg positive.ne'

section Kernel
variable {β : Type} [LinearOrder β]

/-- `(int)((sqrt(8 * k + 1) - 1) * 0.5)` in exact arithmetic. -/
def kernelRow (k : Nat) : Nat := (Nat.sqrt (8 * k + 1) - 1) / 2

/-- `k - i * (i + 1) / 2 + i + 1` -/
def kernelCol (k : Nat) : Nat := k - kernelRow k * (kernelRow k + 1) / 2 + kernelRow k + 1

/-- The six floats at `aabbs[i * 6]`. -/
def boxAt (aabbs : Nat → β) (i : Nat) : AABB β :=
  ⟨aabbs (i * 6 + 0), aabbs (i * 6 + 1), aabbs (i * 6 + 2), aabbs (i * 6 + 3), aabbs (i * 6 + 4), aabbs (i * 6 + 5)⟩

/-- `overlaps[k]` as work item `k` writes it. -/
def aabbOverlapSelf (aabbs : Nat → β) (k : Nat) : UInt8 :=
  if (boxAt aabbs (kernelRow k)).overlap (boxAt aabbs (kernelCol k)) then 1 else 0

/-- The three gaps `dx`, `dy` and `dz` between two boxes, each zero where they overlap. -/
def AABB.gaps [Zero β] [Sub β] (a b : AABB β) : β × β × β :=
  (max 0 (max a.minX b.minX - min a.maxX b.maxX), max 0 (max a.minY b.minY - min a.maxY b.maxY),
    max 0 (max a.minZ b.minZ - min a.maxZ b.maxZ))

/-- `distances[k]` as work item `k` writes it, over the device's square root. -/
def aabbDistance [Zero β] [Sub β] [Add β] [Mul β] (sqrt : β → β) (aabbs : Nat → β) (k : Nat) : β :=
  let (dx, dy, dz) := (boxAt aabbs (kernelRow k)).gaps (boxAt aabbs (kernelCol k))
  sqrt (dx * dx + dy * dy + dz * dz)

def aabbDistanceCross [Zero β] [Sub β] [Add β] [Mul β] (sqrt : β → β) (aabbs1 aabbs2 : Nat → β) (m k : Nat) : β :=
  let (dx, dy, dz) := (boxAt aabbs1 (k / m)).gaps (boxAt aabbs2 (k % m))
  sqrt (dx * dx + dy * dy + dz * dz)

def aabbDistanceOneVsAll [Zero β] [Sub β] [Add β] [Mul β] (sqrt : β → β) (aabbs : Nat → β) (query : AABB β) (i : Nat) : β :=
  let (dx, dy, dz) := query.gaps (boxAt aabbs i)
  sqrt (dx * dx + dy * dy + dz * dz)

end Kernel

/-- The pairs `i < j` in the order of the host's double loop. -/
def hostPairs (n : Nat) : List (Fin n × Fin n) :=
  (List.finRange n).flatMap fun i => ((List.finRange n).filter (i < ·)).map fun j => (i, j)

/-- The body of the double loop from pair number `k` on: flagged pairs go to the callback,
and the loop returns when it does. -/
def hostLoop {Obj σ : Type} (objects : List Obj) (overlaps : Nat → UInt8) (callback : Obj → Obj → σ → σ × Bool) :
    List (Fin objects.length × Fin objects.length) → Nat → σ → σ
  | [], _, state => state
  | (i, j) :: rest, k, state =>
    if overlaps k ≠ 0 then
      let (next, stop) := callback (objects.get i) (objects.get j) state
      if stop then next else hostLoop objects overlaps callback rest (k + 1) next
    else hostLoop objects overlaps callback rest (k + 1) state

/-- The double loop of `invokeDistanceCallbacks` from pair number `k` on. The callback may
lower `minDist`, and pairs whose boxes are not closer than that are passed over. -/
def invokeDistanceCallbacks {Obj α β σ : Type} [LT α] [DecidableLT α] (objects : List Obj) (toScalar : β → α)
    (distances : Nat → β) (callback : Obj → Obj → α → σ → (α × σ) × Bool) :
    List (Fin objects.length × Fin objects.length) → Nat → α → σ → α × σ
  | [], _, minDist, state => (minDist, state)
  | (i, j) :: rest, k, minDist, state =>
    if toScalar (distances k) < minDist then
      let ((closer, next), stop) := callback (objects.get i) (objects.get j) minDist state
      if stop then (closer, next)
      else invokeDistanceCallbacks objects toScalar distances callback rest (k + 1) closer next
    else invokeDistanceCallbacks objects toScalar distances callback rest (k + 1) minDist state

/-- What `other_manager` is: the manager itself, or one with these objects. -/
inductive OtherManager (Obj : Type) where
  | this
  | other (objs : List Obj)

/-- The indices `i < n` and `j < m` in the order of the host's double loop. -/
def crossPairs (n m : Nat) : List (Fin n × Fin m) :=
  (List.finRange n).flatMap fun i => (List.finRange m).map fun j => (i, j)

namespace CoalGPUCollisionManager
variable {Obj α β σ : Type}

/-- A manager as constructed, before any registration. -/
def create (hasUnifiedMemory : Bool) (unallocated : Fresh β) : CoalGPUCollisionManager Obj β :=
  ⟨[], hasUnifiedMemory, ⟨0, unallocated.aabbs⟩, ⟨0, unallocated.overlaps⟩, ⟨0, unallocated.distances⟩,
    ⟨0, unallocated.aabbs⟩, ⟨0, unallocated.overlaps⟩, ⟨0, unallocated.distances⟩⟩

def registerObject (manager : CoalGPUCollisionManager Obj β) (obj : Obj) : CoalGPUCollisionManager Obj β :=
  { manager with objects := manager.objects ++ [obj] }

def registerObjects (manager : CoalGPUCollisionManager Obj β) (otherObjs : List Obj) : CoalGPUCollisionManager Obj β :=
  { manager with objects := manager.objects ++ otherObjs }

/-- The first entry that is the object goes. -/
def unregisterObject [DecidableEq Obj] (manager : CoalGPUCollisionManager Obj β) (obj : Obj) :
    CoalGPUCollisionManager Obj β :=
  { manager with objects := manager.objects.erase obj }

def clear (manager : CoalGPUCollisionManager Obj β) : CoalGPUCollisionManager Obj β := { manager with objects := [] }

def numPairs (manager : CoalGPUCollisionManager Obj β) : Nat :=
  manager.objects.length * (manager.objects.length - 1) / 2

/-- `none` where an allocation throws. -/
def setup [Zero β] (manager : CoalGPUCollisionManager Obj β) (fresh : Fresh β) :
    Option (CoalGPUCollisionManager Obj β) := do
  let n := manager.objects.length
  if n = 0 then return manager
  let bufAabbs ← allocBuffer (n * 6 * sizeofFloat) sizeofFloat fresh.aabbs
  let bufOverlapsSelf ← allocBuffer (manager.numPairs * sizeofUchar) sizeofUchar fresh.overlaps
  let bufDistancesSelf ← allocBuffer (manager.numPairs * sizeofFloat) sizeofFloat fresh.distances
  return { manager with
    bufAabbs, bufOverlapsSelf, bufDistancesSelf
    aabbsStaging := manager.aabbsStaging.resize (n * 6) 0
    overlapsStaging := manager.overlapsStaging.resize manager.numPairs 0
    distancesStaging := manager.distancesStaging.resize manager.numPairs 0 }

theorem numPairs_pos {manager : CoalGPUCollisionManager Obj β} (several : 2 ≤ manager.objects.length) :
    0 < manager.numPairs := by
  have least : 2 * 1 ≤ manager.objects.length * (manager.objects.length - 1) := Nat.mul_le_mul several (by omega)
  unfold numPairs
  omega

/-- With two objects or more `setup` allocates what they need. -/
theorem setup_some [Zero β] {manager : CoalGPUCollisionManager Obj β} (several : 2 ≤ manager.objects.length)
    (fresh : Fresh β) :
    manager.setup fresh = some { manager with
      bufAabbs := ⟨manager.objects.length * 6, fresh.aabbs⟩
      bufOverlapsSelf := ⟨manager.numPairs, fresh.overlaps⟩
      bufDistancesSelf := ⟨manager.numPairs, fresh.distances⟩
      aabbsStaging := manager.aabbsStaging.resize (manager.objects.length * 6) 0
      overlapsStaging := manager.overlapsStaging.resize manager.numPairs 0
      distancesStaging := manager.distancesStaging.resize manager.numPairs 0 } := by
  have pairs := numPairs_pos several
  have some_objects : manager.objects.length ≠ 0 := by omega
  have floats (count : Nat) : count * sizeofFloat / sizeofFloat = count := Nat.mul_div_cancel count (by decide)
  have bytes (count : Nat) : count * sizeofUchar / sizeofUchar = count := Nat.mul_div_cancel count (by decide)
  have boxes : 0 < manager.objects.length * 6 * sizeofFloat := Nat.mul_pos (by omega) (by decide)
  have overlaps : 0 < manager.numPairs * sizeofUchar := Nat.mul_pos pairs (by decide)
  have distances : 0 < manager.numPairs * sizeofFloat := Nat.mul_pos pairs (by decide)
  simp only [setup, if_neg some_objects, allocBuffer_some boxes, allocBuffer_some overlaps, allocBuffer_some distances,
    floats, bytes, Option.bind_eq_bind, Option.bind_some, Option.pure_def]

/-- The manager after `setup`, also where an allocation throws: buffers allocated before are kept. -/
def afterSetup [Zero β] (manager : CoalGPUCollisionManager Obj β) (fresh : Fresh β) : CoalGPUCollisionManager Obj β :=
  match manager.setup fresh with
  | some next => next
  | none =>
    match allocBuffer (manager.objects.length * 6 * sizeofFloat) sizeofFloat fresh.aabbs with
    | none => manager
    | some bufAabbs =>
      match allocBuffer (manager.numPairs * sizeofUchar) sizeofUchar fresh.overlaps with
      | none => { manager with bufAabbs }
      | some bufOverlapsSelf => { manager with bufAabbs, bufOverlapsSelf }

/-- `out[i * 6 + c]` for the objects of the list, narrowed to the device's coordinates. -/
def extractAABBs (getAABB : Obj → AABB α) (toFloat : α → β) (objs : List Obj) (out : Nat → β) : Nat → β :=
  fun index =>
    match objs[index / 6]? with
    | none => out index
    | some obj =>
      let aabb := getAABB obj
      toFloat <| match index % 6 with
        | 0 => aabb.minX
        | 1 => aabb.minY
        | 2 => aabb.minZ
        | 3 => aabb.maxX
        | 4 => aabb.maxY
        | _ => aabb.maxZ

/-- `collide(callback)` with the callback's state. -/
def collide [LinearOrder β] (manager : CoalGPUCollisionManager Obj β) (getAABB : Obj → AABB α) (toFloat : α → β)
    (callback : Obj → Obj → σ → σ × Bool) (state : σ) : CoalGPUCollisionManager Obj β × σ :=
  if manager.objects.isEmpty then (manager, state)
  else
    let n := manager.objects.length
    if manager.hasUnifiedMemory then
      -- map, extract in place, unmap; then map the flags and walk them in place
      let bufAabbs := manager.bufAabbs.write (n * 6)
        (extractAABBs getAABB toFloat manager.objects manager.bufAabbs.contents)
      let bufOverlapsSelf := manager.bufOverlapsSelf.write manager.numPairs (aabbOverlapSelf bufAabbs.contents)
      ({ manager with bufAabbs, bufOverlapsSelf },
        hostLoop manager.objects bufOverlapsSelf.contents callback (hostPairs n) 0 state)
    else
      let aabbsStaging := manager.aabbsStaging.write (n * 6)
        (extractAABBs getAABB toFloat manager.objects manager.aabbsStaging.contents)
      let bufAabbs := manager.bufAabbs.write (n * 6) aabbsStaging.contents
      let bufOverlapsSelf := manager.bufOverlapsSelf.write manager.numPairs (aabbOverlapSelf bufAabbs.contents)
      let overlapsStaging := manager.overlapsStaging.write manager.numPairs bufOverlapsSelf.contents
      ({ manager with bufAabbs, bufOverlapsSelf, aabbsStaging, overlapsStaging },
        hostLoop manager.objects overlapsStaging.contents callback (hostPairs n) 0 state)

/-- `distance(callback)`, with the largest scalar as the first `minDist`. -/
def distance [LinearOrder β] [Zero β] [Sub β] [Add β] [Mul β] [LT α] [DecidableLT α]
    (manager : CoalGPUCollisionManager Obj β) (getAABB : Obj → AABB α) (toFloat : α → β) (toScalar : β → α)
    (sqrt : β → β) (largest : α) (callback : Obj → Obj → α → σ → (α × σ) × Bool) (state : σ) :
    CoalGPUCollisionManager Obj β × α × σ :=
  if manager.objects.isEmpty then (manager, largest, state)
  else
    let n := manager.objects.length
    let computed :=
      if manager.hasUnifiedMemory then
        let bufAabbs := manager.bufAabbs.write (n * 6)
          (extractAABBs getAABB toFloat manager.objects manager.bufAabbs.contents)
        let bufDistancesSelf := manager.bufDistancesSelf.write manager.numPairs (aabbDistance sqrt bufAabbs.contents)
        { manager with bufAabbs, bufDistancesSelf }
      else
        let aabbsStaging := manager.aabbsStaging.write (n * 6)
          (extractAABBs getAABB toFloat manager.objects manager.aabbsStaging.contents)
        let bufAabbs := manager.bufAabbs.write (n * 6) aabbsStaging.contents
        let bufDistancesSelf := manager.bufDistancesSelf.write manager.numPairs (aabbDistance sqrt bufAabbs.contents)
        { manager with bufAabbs, bufDistancesSelf, aabbsStaging }
    let distancesStaging := computed.distancesStaging.write manager.numPairs computed.bufDistancesSelf.contents
    ({ computed with distancesStaging },
      invokeDistanceCallbacks manager.objects toScalar distancesStaging.contents callback (hostPairs n) 0 largest state)

/-! Queries against other objects. They allocate for the call, so an allocation may throw. -/

section Queries
variable (manager : CoalGPUCollisionManager Obj β) (getAABB : Obj → AABB α) (toFloat : α → β) (fresh other : Fresh β)

/-- The box of the query object as it is passed to the kernel. -/
def queryBox (obj : Obj) : AABB β :=
  let q := getAABB obj
  ⟨toFloat q.minX, toFloat q.minY, toFloat q.minZ, toFloat q.maxX, toFloat q.maxY, toFloat q.maxZ⟩

/-- A new buffer, holding the boxes of the objects after `enqueueWriteBuffer`. -/
def uploadAABBs [Zero β] (objs : List Obj) (contents : Nat → β) : Option (Block β) := do
  let aabbs := extractAABBs getAABB toFloat objs fun _ => 0
  let buf ← allocBuffer (objs.length * 6 * sizeofFloat) sizeofFloat contents
  return buf.write (objs.length * 6) aabbs

/-- `distance(obj, callback)` -/
def distanceObject [LinearOrder β] [Zero β] [Sub β] [Add β] [Mul β] [LT α] [DecidableLT α] (toScalar : β → α)
    (sqrt : β → β) (largest : α) (obj : Obj) (callback : Obj → Obj → α → σ → (α × σ) × Bool) (state : σ) :
    Option (α × σ) :=
  if manager.objects.isEmpty then some (largest, state)
  else do
    let n := manager.objects.length
    let bufAabbs ← uploadAABBs getAABB toFloat manager.objects fresh.aabbs
    let bufDistances ← allocBuffer (n * sizeofFloat) sizeofFloat fresh.distances
    let bufDistances :=
      bufDistances.write n (aabbDistanceOneVsAll sqrt bufAabbs.contents (queryBox getAABB toFloat obj))
    let distances := Block.write ⟨n, fun _ => 0⟩ n bufDistances.contents
    return EarlyExit.search (fun (i : Fin manager.objects.length) current =>
      if toScalar (distances.contents i) < current.1 then callback obj (manager.objects.get i) current.1 current.2
      else (current, false)) (List.finRange manager.objects.length) (largest, state)

/-- `distance(other_manager, callback)` -/
def distanceOther [LinearOrder β] [Zero β] [Sub β] [Add β] [Mul β] [LT α] [DecidableLT α] (toScalar : β → α)
    (sqrt : β → β) (largest : α) (otherManager : OtherManager Obj) (callback : Obj → Obj → α → σ → (α × σ) × Bool)
    (state : σ) : Option (CoalGPUCollisionManager Obj β × α × σ) :=
  if manager.objects.isEmpty then some (manager, largest, state)
  else match otherManager with
    | .this => some (manager.distance getAABB toFloat toScalar sqrt largest callback state)
    | .other otherObjs =>
      if otherObjs.isEmpty then some (manager, largest, state)
      else do
        let n := manager.objects.length
        let m := otherObjs.length
        let buf1 ← uploadAABBs getAABB toFloat manager.objects fresh.aabbs
        let buf2 ← uploadAABBs getAABB toFloat otherObjs other.aabbs
        let bufDistances ← allocBuffer (n * m * sizeofFloat) sizeofFloat fresh.distances
        let bufDistances := bufDistances.write (n * m) (aabbDistanceCross sqrt buf1.contents buf2.contents m)
        let distances := Block.write ⟨n * m, fun _ => 0⟩ (n * m) bufDistances.contents
        return (manager, EarlyExit.search (fun pair current =>
          if toScalar (distances.contents (pair.1 * m + pair.2)) < current.1 then
            callback (manager.objects.get pair.1) (otherObjs.get pair.2) current.1 current.2
          else (current, false)) (crossPairs manager.objects.length otherObjs.length) (largest, state))

end Queries

end CoalGPUCollisionManager
end RoboticsRt

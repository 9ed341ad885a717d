import RoboticsRt.GpuCollisionManager
import RoboticsRt.Library.Transition

/-! What a GPU manager asks of OpenCL: the allocations of `setup` and the maps, transfers and
kernel launches of the self-queries, with their sizes in bytes. Executed in that order they are
what a self-query does to the memory. A client calls the manager as its header documents. -/

namespace RoboticsRt
open Transition

/-- The persistent device buffers and staging vectors. -/
inductive Memory where
  | bufAabbs | bufOverlapsSelf | bufDistancesSelf | aabbsStaging | overlapsStaging | distancesStaging

inductive Command where
  | allocBuffer (bytes : Nat)
  | mapBuffer (buffer : Memory) (bytes : Nat)
  | extractAABBs (out : Memory) (bytes : Nat) -- into a mapped buffer or a vector
  | writeBuffer (buffer source : Memory) (bytes : Nat)
  | ndRangeKernel (output : Memory) (sizeof items : Nat) -- work item `k` writes entry `k`
  | readBuffer (buffer target : Memory) (bytes : Nat)
  | copy (source target : Memory) (bytes : Nat)

/-- The calls that issue commands. -/
inductive Operation where
  | setup | collide | distance
  deriving DecidableEq

namespace CoalGPUCollisionManager
variable {Obj α β : Type} (manager : CoalGPUCollisionManager Obj β)

/-- The size of a buffer or vector in bytes. -/
def capacity : Memory → Nat
  | .bufAabbs => manager.bufAabbs.size * sizeofFloat
  | .bufOverlapsSelf => manager.bufOverlapsSelf.size * sizeofUchar
  | .bufDistancesSelf => manager.bufDistancesSelf.size * sizeofFloat
  | .aabbsStaging => manager.aabbsStaging.size * sizeofFloat
  | .overlapsStaging => manager.overlapsStaging.size * sizeofUchar
  | .distancesStaging => manager.distancesStaging.size * sizeofFloat

def setupCommands : List Command :=
  let n := manager.objects.length
  if n = 0 then []
  else [.allocBuffer (n * 6 * sizeofFloat), .allocBuffer (manager.numPairs * sizeofUchar),
    .allocBuffer (manager.numPairs * sizeofFloat)]

def collideCommands : List Command :=
  let n := manager.objects.length
  if manager.objects.isEmpty then []
  else if manager.hasUnifiedMemory then
    [.mapBuffer .bufAabbs (n * 6 * sizeofFloat), .extractAABBs .bufAabbs (n * 6 * sizeofFloat),
      .ndRangeKernel .bufOverlapsSelf sizeofUchar manager.numPairs,
      .mapBuffer .bufOverlapsSelf (manager.numPairs * sizeofUchar)]
  else
    [.extractAABBs .aabbsStaging (n * 6 * sizeofFloat),
      .writeBuffer .bufAabbs .aabbsStaging (n * 6 * sizeofFloat),
      .ndRangeKernel .bufOverlapsSelf sizeofUchar manager.numPairs,
      .readBuffer .bufOverlapsSelf .overlapsStaging (manager.numPairs * sizeofUchar)]

def distanceCommands : List Command :=
  let n := manager.objects.length
  if manager.objects.isEmpty then []
  else if manager.hasUnifiedMemory then
    [.mapBuffer .bufAabbs (n * 6 * sizeofFloat), .extractAABBs .bufAabbs (n * 6 * sizeofFloat),
      .ndRangeKernel .bufDistancesSelf sizeofFloat manager.numPairs,
      .mapBuffer .bufDistancesSelf (manager.numPairs * sizeofFloat),
      .copy .bufDistancesSelf .distancesStaging (manager.numPairs * sizeofFloat)]
  else
    [.extractAABBs .aabbsStaging (n * 6 * sizeofFloat),
      .writeBuffer .bufAabbs .aabbsStaging (n * 6 * sizeofFloat),
      .ndRangeKernel .bufDistancesSelf sizeofFloat manager.numPairs,
      .readBuffer .bufDistancesSelf .distancesStaging (manager.numPairs * sizeofFloat)]

def commands : Operation → List Command
  | .setup => manager.setupCommands
  | .collide => manager.collideCommands
  | .distance => manager.distanceCommands

/-- A positive size within everything the command touches at its own indices. -/
def Fits : Command → Prop
  | .allocBuffer bytes => 0 < bytes
  | .mapBuffer buffer bytes => 0 < bytes ∧ bytes ≤ manager.capacity buffer
  | .extractAABBs out bytes => 0 < bytes ∧ bytes ≤ manager.capacity out
  | .writeBuffer buffer source bytes => 0 < bytes ∧ bytes ≤ manager.capacity buffer ∧ bytes ≤ manager.capacity source
  | .ndRangeKernel output sizeof items => 0 < items ∧ items * sizeof ≤ manager.capacity output
  | .readBuffer buffer target bytes => 0 < bytes ∧ bytes ≤ manager.capacity buffer ∧ bytes ≤ manager.capacity target
  | .copy source target bytes => 0 < bytes ∧ bytes ≤ manager.capacity source ∧ bytes ≤ manager.capacity target

/-- Move `bytes` bytes between a device buffer and its vector. -/
def transfer (source target : Memory) (bytes : Nat) : CoalGPUCollisionManager Obj β :=
  let floats := bytes / sizeofFloat
  match source, target with
  | .aabbsStaging, .bufAabbs =>
    { manager with bufAabbs := manager.bufAabbs.write floats manager.aabbsStaging.contents }
  | .bufOverlapsSelf, .overlapsStaging =>
    { manager with
      overlapsStaging := manager.overlapsStaging.write (bytes / sizeofUchar) manager.bufOverlapsSelf.contents }
  | .bufDistancesSelf, .distancesStaging =>
    { manager with distancesStaging := manager.distancesStaging.write floats manager.bufDistancesSelf.contents }
  | _, _ => manager

section Execution
variable [LinearOrder β] [Zero β] [Sub β] [Add β] [Mul β] (getAABB : Obj → AABB α) (toFloat : α → β) (sqrt : β → β)

/-- What a command of a self-query does to the memory. A mapped buffer is used in place, and the
self-check kernels differ in the buffer they write. -/
def execute : Command → CoalGPUCollisionManager Obj β
  | .allocBuffer _ | .mapBuffer _ _ => manager
  | .extractAABBs .bufAabbs bytes =>
    { manager with
      bufAabbs := manager.bufAabbs.write (bytes / sizeofFloat)
        (extractAABBs getAABB toFloat manager.objects manager.bufAabbs.contents) }
  | .extractAABBs .aabbsStaging bytes =>
    { manager with
      aabbsStaging := manager.aabbsStaging.write (bytes / sizeofFloat)
        (extractAABBs getAABB toFloat manager.objects manager.aabbsStaging.contents) }
  | .extractAABBs _ _ => manager
  | .writeBuffer buffer source bytes => manager.transfer source buffer bytes
  | .ndRangeKernel .bufOverlapsSelf _ items =>
    { manager with
      bufOverlapsSelf := manager.bufOverlapsSelf.write items (aabbOverlapSelf manager.bufAabbs.contents) }
  | .ndRangeKernel .bufDistancesSelf _ items =>
    { manager with
      bufDistancesSelf := manager.bufDistancesSelf.write items (aabbDistance sqrt manager.bufAabbs.contents) }
  | .ndRangeKernel _ _ _ => manager
  | .readBuffer buffer target bytes => manager.transfer buffer target bytes
  | .copy source target bytes => manager.transfer source target bytes

def executeAll (commands : List Command) : CoalGPUCollisionManager Obj β :=
  commands.foldl (fun manager command => manager.execute getAABB toFloat sqrt command) manager

theorem floats_of_bytes (count : Nat) : count * sizeofFloat / sizeofFloat = count := Nat.mul_div_cancel count (by decide)

theorem uchars_of_bytes (count : Nat) : count * sizeofUchar / sizeofUchar = count := Nat.mul_div_cancel count (by decide)

/-- The listed commands of `collide` are what it does to the memory. -/
theorem collide_executes {σ : Type} (callback : Obj → Obj → σ → σ × Bool) (state : σ) :
    (manager.collide getAABB toFloat callback state).1 =
      manager.executeAll getAABB toFloat sqrt manager.collideCommands := by
  unfold collide collideCommands
  cases empty : manager.objects.isEmpty with
  | true => rfl
  | false =>
    cases unified : manager.hasUnifiedMemory <;>
      simp [executeAll, execute, transfer, floats_of_bytes, uchars_of_bytes, unified]

theorem distance_executes [LT α] [DecidableLT α] {σ : Type} (toScalar : β → α) (largest : α)
    (callback : Obj → Obj → α → σ → (α × σ) × Bool) (state : σ) :
    (manager.distance getAABB toFloat toScalar sqrt largest callback state).1 =
      manager.executeAll getAABB toFloat sqrt manager.distanceCommands := by
  unfold distance distanceCommands
  cases empty : manager.objects.isEmpty with
  | true => rfl
  | false =>
    cases unified : manager.hasUnifiedMemory <;> simp [executeAll, execute, transfer, floats_of_bytes, unified]

end Execution
end CoalGPUCollisionManager

/-! A client of the manager. -/

/-- `setUp` is false between a registration and the next `setup`. -/
structure Session (Obj β : Type) where
  manager : CoalGPUCollisionManager Obj β
  setUp : Bool

namespace Session

inductive Event (Obj : Type) where
  | registerObject (obj : Obj)
  | registerObjects (objs : List Obj)
  | unregisterObject (obj : Obj)
  | clear
  | call (operation : Operation)

variable {Obj α β : Type} [DecidableEq Obj] [LinearOrder β] [Zero β] [Sub β] [Add β] [Mul β] [LT α] [DecidableLT α]

/-- Self-queries wait for a `setup` after the last registration. -/
inductive Step (toFloat : α → β) (toScalar : β → α) (sqrt : β → β) (largest : α) :
    Session Obj β → Event Obj → Session Obj β → Prop where
  | registerObject (session : Session Obj β) (obj) :
      Step toFloat toScalar sqrt largest session (.registerObject obj) ⟨session.manager.registerObject obj, false⟩
  | registerObjects (session : Session Obj β) (objs) :
      Step toFloat toScalar sqrt largest session (.registerObjects objs) ⟨session.manager.registerObjects objs, false⟩
  | unregisterObject (session : Session Obj β) (obj) :
      Step toFloat toScalar sqrt largest session (.unregisterObject obj)
        { session with manager := session.manager.unregisterObject obj }
  | clear (session : Session Obj β) :
      Step toFloat toScalar sqrt largest session .clear { session with manager := session.manager.clear }
  | setup (session : Session Obj β) (fresh) :
      Step toFloat toScalar sqrt largest session (.call .setup) ⟨session.manager.afterSetup fresh, true⟩
  | collide (session : Session Obj β) (ready : session.setUp = true) (getAABB) {σ : Type}
      (callback : Obj → Obj → σ → σ × Bool) (state : σ) :
      Step toFloat toScalar sqrt largest session (.call .collide)
        { session with manager := (session.manager.collide getAABB toFloat callback state).1 }
  | distance (session : Session Obj β) (ready : session.setUp = true) (getAABB) {σ : Type}
      (callback : Obj → Obj → α → σ → (α × σ) × Bool) (state : σ) :
      Step toFloat toScalar sqrt largest session (.call .distance)
        { session with
          manager := (session.manager.distance getAABB toFloat toScalar sqrt largest callback state).1 }

def system (toFloat : α → β) (toScalar : β → α) (sqrt : β → β) (largest : α) :
    Transition.System (Session Obj β) (Event Obj) where
  start session := ∃ unified unallocated, session = ⟨.create unified unallocated, true⟩
  step := Step toFloat toScalar sqrt largest

end Session
end RoboticsRt

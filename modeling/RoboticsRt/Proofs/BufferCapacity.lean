import RoboticsRt.GpuCommands
import RoboticsRt.Proofs.PairIndex

/-! Whether the persistent buffers fit what is asked of them. After a `setup` there is room
for its objects, and for any fewer; but one object alone has no pairs, and a size of zero is
no size for OpenCL. -/

namespace RoboticsRt
open Transition

/-- What `n` objects need of each buffer and vector, in bytes. -/
def needed (n : Nat) : Memory → Nat
  | .bufAabbs | .aabbsStaging => n * 6 * sizeofFloat
  | .bufOverlapsSelf | .overlapsStaging => n * (n - 1) / 2 * sizeofUchar
  | .bufDistancesSelf | .distancesStaging => n * (n - 1) / 2 * sizeofFloat

theorem needed_mono {m n : Nat} (fewer : m ≤ n) (memory : Memory) : needed m memory ≤ needed n memory := by
  have boxes : m * 6 ≤ n * 6 := Nat.mul_le_mul_right 6 fewer
  have pairs : m * (m - 1) / 2 ≤ n * (n - 1) / 2 := Nat.div_le_div_right (Nat.mul_le_mul fewer (by omega))
  cases memory <;> exact Nat.mul_le_mul_right _ (by assumption)

namespace CoalGPUCollisionManager
variable {Obj α β σ : Type}

def HasRoom (manager : CoalGPUCollisionManager Obj β) (n : Nat) : Prop :=
  ∀ memory, needed n memory ≤ manager.capacity memory

theorem HasRoom.fewer {manager : CoalGPUCollisionManager Obj β} {m n : Nat} (room : manager.HasRoom n) (fewer : m ≤ n) :
    manager.HasRoom m := fun memory => (needed_mono fewer memory).trans (room memory)

variable (manager : CoalGPUCollisionManager Obj β)

theorem setup_hasRoom [Zero β] (several : 2 ≤ manager.objects.length) (fresh : Fresh β) :
    (manager.afterSetup fresh).objects = manager.objects ∧
      (manager.afterSetup fresh).HasRoom manager.objects.length := by
  rw [afterSetup, setup_some several]
  exact ⟨rfl, fun memory => by cases memory <;> exact le_rfl⟩

theorem setup_objects [Zero β] {fresh : Fresh β} {next : CoalGPUCollisionManager Obj β}
    (allocated : manager.setup fresh = some next) : next.objects = manager.objects := by
  unfold setup at allocated
  dsimp only at allocated
  split at allocated
  · cases allocated
    rfl
  · obtain ⟨_, _, allocated⟩ := Option.bind_eq_some_iff.mp allocated
    obtain ⟨_, _, allocated⟩ := Option.bind_eq_some_iff.mp allocated
    obtain ⟨_, _, allocated⟩ := Option.bind_eq_some_iff.mp allocated
    cases allocated
    rfl

theorem afterSetup_objects [Zero β] (fresh : Fresh β) : (manager.afterSetup fresh).objects = manager.objects := by
  unfold afterSetup
  split
  next next allocated => exact manager.setup_objects allocated
  · split
    · rfl
    · split <;> rfl

theorem collide_capacity [LinearOrder β] (getAABB : Obj → AABB α) (toFloat : α → β)
    (callback : Obj → Obj → σ → σ × Bool) (state : σ) :
    (manager.collide getAABB toFloat callback state).1.objects = manager.objects ∧
      (manager.collide getAABB toFloat callback state).1.capacity = manager.capacity := by
  unfold collide
  split
  · exact ⟨rfl, rfl⟩
  · dsimp only
    split
    · exact ⟨rfl, funext fun memory => by cases memory <;> rfl⟩
    · exact ⟨rfl, funext fun memory => by cases memory <;> rfl⟩

theorem distance_capacity [LinearOrder β] [Zero β] [Sub β] [Add β] [Mul β] [LT α] [DecidableLT α]
    (getAABB : Obj → AABB α) (toFloat : α → β) (toScalar : β → α) (sqrt : β → β) (largest : α)
    (callback : Obj → Obj → α → σ → (α × σ) × Bool) (state : σ) :
    (manager.distance getAABB toFloat toScalar sqrt largest callback state).1.objects = manager.objects ∧
      (manager.distance getAABB toFloat toScalar sqrt largest callback state).1.capacity = manager.capacity := by
  unfold distance
  split
  · exact ⟨rfl, rfl⟩
  · dsimp only
    split
    · exact ⟨rfl, funext fun memory => by cases memory <;> rfl⟩
    · exact ⟨rfl, funext fun memory => by cases memory <;> rfl⟩

theorem commands_empty (none : manager.objects = []) (operation : Operation) : manager.commands operation = [] := by
  cases operation <;> simp [commands, setupCommands, collideCommands, distanceCommands, none]

/-- One object has no pairs: `setup` asks for an empty buffer, and the queries for no work. -/
theorem single_unfit (single : manager.objects.length = 1) (operation : Operation) :
    ∃ command ∈ manager.commands operation, ¬ manager.Fits command := by
  have pairless : manager.numPairs = 0 := by rw [numPairs, single]
  have filled : manager.objects.isEmpty = false := by
    rw [List.isEmpty_eq_false_iff, ← List.length_pos_iff, single]
    exact Nat.one_pos
  have nothing (output : Memory) (sizeof : Nat) : ¬ manager.Fits (.ndRangeKernel output sizeof manager.numPairs) :=
    fun fits => fits.1.ne' pairless
  cases operation with
  | setup =>
    refine ⟨.allocBuffer (manager.numPairs * sizeofUchar), ?_, ?_⟩
    · simp [commands, setupCommands, single]
    · rw [pairless]
      exact Nat.lt_irrefl 0
  | collide =>
    refine ⟨.ndRangeKernel .bufOverlapsSelf sizeofUchar manager.numPairs, ?_, nothing _ _⟩
    cases unified : manager.hasUnifiedMemory <;> simp [commands, collideCommands, filled, unified]
  | distance =>
    refine ⟨.ndRangeKernel .bufDistancesSelf sizeofFloat manager.numPairs, ?_, nothing _ _⟩
    cases unified : manager.hasUnifiedMemory <;> simp [commands, distanceCommands, filled, unified]

theorem several_fit (several : 2 ≤ manager.objects.length) (operation : Operation)
    (room : operation ≠ .setup → manager.HasRoom manager.objects.length) :
    ∀ command ∈ manager.commands operation, manager.Fits command := by
  have pairs := numPairs_pos several
  have filled : manager.objects.isEmpty = false := by
    rw [List.isEmpty_eq_false_iff, ← List.length_pos_iff]
    omega
  have boxes : 0 < manager.objects.length * 6 * sizeofFloat := Nat.mul_pos (by omega) (by decide)
  have flags : 0 < manager.numPairs * sizeofUchar := Nat.mul_pos pairs (by decide)
  have floats : 0 < manager.numPairs * sizeofFloat := Nat.mul_pos pairs (by decide)
  cases operation with
  | setup =>
    have some_objects : manager.objects.length ≠ 0 := by omega
    simp only [commands, setupCommands, if_neg some_objects, List.forall_mem_cons, Fits]
    exact ⟨boxes, flags, floats, by simp⟩
  | collide =>
    have room := room (by decide)
    cases unified : manager.hasUnifiedMemory with
    | true =>
      simp only [commands, collideCommands, filled, unified, Bool.false_eq_true, if_false, if_true, List.forall_mem_cons,
        Fits]
      exact ⟨⟨boxes, room .bufAabbs⟩, ⟨boxes, room .bufAabbs⟩, ⟨pairs, room .bufOverlapsSelf⟩,
        ⟨flags, room .bufOverlapsSelf⟩, by simp⟩
    | false =>
      simp only [commands, collideCommands, filled, unified, Bool.false_eq_true, if_false, List.forall_mem_cons, Fits]
      exact ⟨⟨boxes, room .aabbsStaging⟩, ⟨boxes, room .bufAabbs, room .aabbsStaging⟩,
        ⟨pairs, room .bufOverlapsSelf⟩, ⟨flags, room .bufOverlapsSelf, room .overlapsStaging⟩, by simp⟩
  | distance =>
    have room := room (by decide)
    cases unified : manager.hasUnifiedMemory with
    | true =>
      simp only [commands, distanceCommands, filled, unified, Bool.false_eq_true, if_false, if_true, List.forall_mem_cons,
        Fits]
      exact ⟨⟨boxes, room .bufAabbs⟩, ⟨boxes, room .bufAabbs⟩, ⟨pairs, room .bufDistancesSelf⟩,
        ⟨floats, room .bufDistancesSelf⟩, ⟨floats, room .bufDistancesSelf, room .distancesStaging⟩, by simp⟩
    | false =>
      simp only [commands, distanceCommands, filled, unified, Bool.false_eq_true, if_false, List.forall_mem_cons, Fits]
      exact ⟨⟨boxes, room .aabbsStaging⟩, ⟨boxes, room .bufAabbs, room .aabbsStaging⟩,
        ⟨pairs, room .bufDistancesSelf⟩, ⟨floats, room .bufDistancesSelf, room .distancesStaging⟩, by simp⟩

theorem commands_fit_iff (operation : Operation)
    (room : operation ≠ .setup → 2 ≤ manager.objects.length → manager.HasRoom manager.objects.length) :
    (∀ command ∈ manager.commands operation, manager.Fits command) ↔ manager.objects.length ≠ 1 := by
  constructor
  · intro fit single
    obtain ⟨command, issued, unfit⟩ := manager.single_unfit single operation
    exact unfit (fit command issued)
  · intro other
    rcases eq_or_ne manager.objects [] with none | some
    · rw [manager.commands_empty none operation]
      exact fun _ issued => absurd issued List.not_mem_nil
    · have several : 2 ≤ manager.objects.length := by
        have positive := List.length_pos_iff.mpr some
        omega
      exact manager.several_fit several operation fun query => room query several

theorem setup_isSome_iff [Zero β] (fresh : Fresh β) :
    (manager.setup fresh).isSome ↔ ∀ command ∈ manager.commands .setup, manager.Fits command := by
  rw [manager.commands_fit_iff .setup fun query => absurd rfl query]
  rcases Nat.lt_trichotomy manager.objects.length 1 with none | single | several
  · simp [setup, Nat.lt_one_iff.mp none]
  · simp [setup, single, numPairs, allocBuffer, sizeofFloat]
  · rw [setup_some several]
    exact iff_of_true rfl several.ne'

end CoalGPUCollisionManager

namespace Session
variable {Obj α β : Type} [DecidableEq Obj] [LinearOrder β] [Zero β] [Sub β] [Add β] [Mul β] [LT α] [DecidableLT α]
  {toFloat : α → β} {toScalar : β → α} {sqrt : β → β} {largest : α}

/-- Between a `setup` and the next registration there is room for the objects. -/
def Provided (session : Session Obj β) : Prop :=
  session.setUp = true → 2 ≤ session.manager.objects.length →
    session.manager.HasRoom session.manager.objects.length

theorem Provided.step {before after : Session Obj β} {event : Event Obj} (provided : before.Provided)
    (taken : Step toFloat toScalar sqrt largest before event after) : after.Provided := by
  cases taken with
  | registerObject obj => exact fun ready => absurd ready Bool.false_ne_true
  | registerObjects objs => exact fun ready => absurd ready Bool.false_ne_true
  | unregisterObject obj =>
    intro ready several
    have fewer : (before.manager.unregisterObject obj).objects.length ≤ before.manager.objects.length :=
      List.length_erase_le
    exact (provided ready (several.trans fewer)).fewer fewer
  | clear => exact fun _ several => absurd several (Nat.not_succ_le_zero 1)
  | setup fresh =>
    intro _ several
    have same := before.manager.afterSetup_objects fresh
    dsimp only at several ⊢
    rw [same] at several ⊢
    exact (before.manager.setup_hasRoom several fresh).2
  | collide ready getAABB callback state =>
    obtain ⟨objects, capacity⟩ := before.manager.collide_capacity getAABB toFloat callback state
    intro ready several
    unfold CoalGPUCollisionManager.HasRoom
    rw [objects] at several ⊢
    rw [capacity]
    exact provided ready several
  | distance ready getAABB callback state =>
    obtain ⟨objects, capacity⟩ := before.manager.distance_capacity getAABB toFloat toScalar sqrt largest callback state
    intro ready several
    unfold CoalGPUCollisionManager.HasRoom
    rw [objects] at several ⊢
    rw [capacity]
    exact provided ready several

theorem provided {session : Session Obj β} (reached : (system toFloat toScalar sqrt largest).Reachable session) :
    session.Provided := by
  have invariant : (system toFloat toScalar sqrt largest).Invariant fun session : Session Obj β => session.Provided :=
    ⟨fun session ⟨_, _, started⟩ => started ▸ fun _ several => absurd several (Nat.not_succ_le_zero 1),
      fun _ _ _ provided taken => provided.step taken⟩
  exact invariant.reachable reached

end Session

/-! A manager with one object, as for a robot with one mesh, and one with two objects. -/

def blank : Fresh Int := ⟨fun _ => 0, fun _ => 0, fun _ => 0⟩

end RoboticsRt

import RoboticsRt.UrdfRobotModel
import Mathlib.Data.Rat.Lemmas
import Mathlib.Tactic.NormNum

/-! Which limits the constructor attaches to the joints of the chain. The loop looks joints
up by segment names, and segments are named after links. -/

namespace RoboticsRt
variable {K : Type} [CommRing K]

def limitsOr (pi : K) (limits : Option (JointLimits K)) : JointLimits K := limits.getD ⟨-pi, pi⟩

def UrdfModel.lookedUp (urdf : UrdfModel K) (pi : K) (seg : Segment3d K) : JointLimits K :=
  limitsOr pi ((urdf.getJoint seg.name).bind Joint.limits)

def moving (chain : List (Segment3d K)) : List (Segment3d K) := chain.filter fun seg => seg.motion.moves

namespace UrdfRobotModel

/-- The claim on the arrays: their index counts the moving segments of the chain, and the entry
belongs to the joint that moves the segment. -/
def LimitsAttached (urdf : UrdfModel K) (pi : K) (model : UrdfRobotModel K) : Prop :=
  ∀ (k : Nat) (seg : Segment3d K) (joint : Joint K), (moving model.chain)[k]? = some seg → urdf.getJoint seg.jointName = some joint →
    model.jointLimits.1[k]? = some (limitsOr pi joint.limits).lower ∧
      model.jointLimits.2[k]? = some (limitsOr pi joint.limits).upper

variable {urdf : UrdfModel K} {pi : K}

theorem limitsLoop_eq (urdf : UrdfModel K) (pi : K) (segs : List (Segment3d K)) (lows highs : List K)
    {restMin restMax : List K} (same : lows.length = highs.length) (roomMin : restMin.length = (moving segs).length)
    (roomMax : restMax.length = (moving segs).length) :
    limitsLoop urdf pi segs lows.length (lows ++ restMin) (highs ++ restMax) =
      (lows ++ (moving segs).map fun seg => (urdf.lookedUp pi seg).lower,
        highs ++ (moving segs).map fun seg => (urdf.lookedUp pi seg).upper) := by
  induction segs generalizing lows highs restMin restMax with
  | nil =>
    rw [moving, List.filter_nil, List.length_nil, List.length_eq_zero_iff] at roomMin roomMax
    rw [roomMin, roomMax, limitsLoop]
    rfl
  | cons seg rest ih =>
    cases moves : seg.motion.moves with
    | false =>
      have skipped : moving (seg :: rest) = moving rest := List.filter_cons_of_neg (by simp [moves])
      rw [skipped] at roomMin roomMax ⊢
      rw [limitsLoop, moves, if_neg Bool.false_ne_true]
      exact ih lows highs same roomMin roomMax
    | true =>
      have taken : moving (seg :: rest) = seg :: moving rest := List.filter_cons_of_pos moves
      rw [taken] at roomMin roomMax ⊢
      obtain ⟨oldMin, restMin, rfl⟩ := List.exists_cons_of_length_eq_add_one roomMin
      obtain ⟨oldMax, restMax, rfl⟩ := List.exists_cons_of_length_eq_add_one roomMax
      have roomMin : restMin.length = (moving rest).length := Nat.succ.inj roomMin
      have roomMax : restMax.length = (moving rest).length := Nat.succ.inj roomMax
      -- the slot at the index is the first one not yet written
      have slot (limits : JointLimits K) :
          limitsLoop urdf pi rest (lows.length + 1) ((lows ++ oldMin :: restMin).set lows.length limits.lower)
              ((highs ++ oldMax :: restMax).set lows.length limits.upper) =
            (lows ++ limits.lower :: (moving rest).map fun seg => (urdf.lookedUp pi seg).lower,
              highs ++ limits.upper :: (moving rest).map fun seg => (urdf.lookedUp pi seg).upper) := by
        have next := ih (lows ++ [limits.lower]) (highs ++ [limits.upper]) (by simp [same]) roomMin roomMax
        rw [List.length_append, List.length_singleton] at next
        rw [List.set_append_right _ _ le_rfl, List.set_append_right _ _ same.ge, same, Nat.sub_self]
        simpa [same] using next
      rw [limitsLoop, moves, if_pos rfl]
      rw [List.map_cons, List.map_cons, UrdfModel.lookedUp]
      cases (urdf.getJoint seg.name).bind Joint.limits with
      | some limits => exact slot limits
      | none => exact slot ⟨-pi, pi⟩

theorem create_limits {kdl : Kdl K} {resolve : String → String} {model : UrdfRobotModel K}
    (created : create kdl pi resolve urdf = some model) :
    kdl.getChain urdf "fr3_link0" "fr3_hand" = some model.chain ∧
      model.jointLimits.1 = (moving model.chain).map (fun seg => (urdf.lookedUp pi seg).lower) ∧
      model.jointLimits.2 = (moving model.chain).map (fun seg => (urdf.lookedUp pi seg).upper) := by
  obtain ⟨chain, found, rfl⟩ := Option.map_eq_some_iff.mp created
  have room : (List.replicate (nrOfJoints chain) (0 : K)).length = (moving chain).length := by
    rw [List.length_replicate, nrOfJoints, List.countP_eq_length_filter, moving]
  have looped := limitsLoop_eq urdf pi chain [] [] rfl room room
  exact ⟨found, congrArg Prod.fst looped, congrArg Prod.snd looped⟩

/-- Every moving joint of the chain finds its own limits under the name of its child link. -/
def OwnLimits (urdf : UrdfModel K) (pi : K) (chain : List (Segment3d K)) : Prop :=
  ∀ joint ∈ urdf.joints, Segment3d.ofJoint joint ∈ moving chain →
    limitsOr pi ((urdf.getJoint joint.childLinkName).bind Joint.limits) = limitsOr pi joint.limits

theorem limits_attached_iff {kdl : Kdl K} {resolve : String → String} {model : UrdfRobotModel K}
    (created : create kdl pi resolve urdf = some model) :
    LimitsAttached urdf pi model ↔ OwnLimits urdf pi model.chain := by
  obtain ⟨found, lows, highs⟩ := create_limits created
  obtain ⟨joints, path, _, segments⟩ := kdl.path _ _ _ _ found
  have at_index {k : Nat} {seg : Segment3d K} (here : (moving model.chain)[k]? = some seg) :
      model.jointLimits.1[k]? = some (urdf.lookedUp pi seg).lower ∧
        model.jointLimits.2[k]? = some (urdf.lookedUp pi seg).upper := by
    rw [lows, highs, List.getElem?_map, List.getElem?_map, here]
    exact ⟨rfl, rfl⟩
  constructor
  · intro attached joint member moves
    obtain ⟨k, here⟩ := List.getElem?_of_mem moves
    have wanted := attached k _ joint here (urdf.getJoint_member member)
    have got := at_index here
    rw [got.1, got.2, Option.some.injEq, Option.some.injEq] at wanted
    exact JointLimits.ext wanted.1 wanted.2
  · intro own k seg joint here named
    have moves := List.mem_of_getElem? here
    have inside : seg ∈ joints.map Segment3d.ofJoint := segments ▸ (List.mem_filter.mp moves).1
    obtain ⟨mover, member, rfl⟩ := List.mem_map.mp inside
    have member := path.member mover member
    have same : joint = mover := Option.some.inj (named.symm.trans (urdf.getJoint_member member))
    have got := at_index here
    rw [UrdfModel.lookedUp, Segment3d.ofJoint, own mover member moves, ← same] at got
    exact got

end UrdfRobotModel

/-! One joint between the two links, limited to -1 and 1. -/

def mPi : ℚ := 884279719003555 / 2 ^ 48

def limitedJoint (name : String) (links : List (Link ℚ)) : UrdfModel ℚ where
  links
  joints := [⟨name, "fr3_link0", "fr3_hand", some ⟨-1, 1⟩, .movable fun _ => 1⟩]
  names := List.nodup_singleton _
  oneParent := List.nodup_singleton _

theorem limitedJoint_created (name : String) (links : List (Link ℚ)) :
    ∃ model, UrdfRobotModel.create (Kdl.climbing ℚ) mPi id (limitedJoint name links) = some model ∧
      model.chain = (limitedJoint name links).joints.map Segment3d.ofJoint ∧
        model.linkMeshes = UrdfRobotModel.extractLinkMeshes id links := by
  have climbed : (limitedJoint name links).climb "fr3_link0" (limitedJoint name links).joints.length "fr3_hand" [] =
      some (limitedJoint name links).joints := by simp [UrdfModel.climb, limitedJoint]
  have found : (Kdl.climbing ℚ).getChain (limitedJoint name links) "fr3_link0" "fr3_hand" =
      some ((limitedJoint name links).joints.map Segment3d.ofJoint) := by
    dsimp only [Kdl.climbing]
    rw [climbed, Option.bind_some, if_pos (limitedJoint name links).names]
  exact ⟨_, congrArg (Option.map _) found, rfl, rfl⟩

theorem hand_joint_attached : ∃ model,
    UrdfRobotModel.create (Kdl.climbing ℚ) mPi id (limitedJoint "fr3_hand" []) = some model ∧
      UrdfRobotModel.LimitsAttached (limitedJoint "fr3_hand" []) mPi model := by
  obtain ⟨model, created, _⟩ := limitedJoint_created "fr3_hand" []
  refine ⟨model, created, (UrdfRobotModel.limits_attached_iff created).mpr fun joint member _ => ?_⟩
  cases List.mem_singleton.mp member
  rfl

theorem first_joint_unlimited : ∃ model,
    UrdfRobotModel.create (Kdl.climbing ℚ) mPi id (limitedJoint "fr3_joint1" []) = some model ∧
      ¬ UrdfRobotModel.LimitsAttached (limitedJoint "fr3_joint1" []) mPi model := by
  obtain ⟨model, created, chain, _⟩ := limitedJoint_created "fr3_joint1" []
  refine ⟨model, created, fun attached => ?_⟩
  obtain ⟨_, lows, _⟩ := UrdfRobotModel.create_limits created
  have wanted := (attached 0 _ _ (by rw [chain]; rfl) rfl).1
  rw [lows, chain] at wanted
  -- no joint is called `fr3_hand`, so the lower limit is `-M_PI`
  have got : (-mPi : ℚ) = -1 := Option.some.inj wanted
  norm_num [mPi] at got

end RoboticsRt

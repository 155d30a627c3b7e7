/-
Lookout.Proofs.Scene.Aim — of several viewport requests the last one counts.

A viewport request leaves a pose that looks at the requested point of the
ground and can be shifted to look at any other (`aimed_aimedAt`). The next
request shifts it there, and so does to it what it would have done to the
first camera (`viewMatrix_aimedAt_aimedAt`): whether an earlier request has
shifted the camera or turned it into a bird's-eye view leaves no trace.
-/
import Lookout.Proofs.Scene.Rigid
import Lookout.Scene.Recorder
import Lookout.Scene.Navigator

namespace Lookout

open Vec3 (IsFrame)

namespace Pose

/-! ## Shifts -/

section Shift

variable (p : Pose ℝ) (s t : Vec3 ℝ)

@[simp] theorem eye_shiftBy : (p.shiftBy s).eye = p.eye + s := rfl

@[simp] theorem up_shiftBy : (p.shiftBy s).up = p.up := rfl

@[simp] theorem direction_shiftBy : (p.shiftBy s).direction = p.direction := by
  ext <;> simp [direction, shiftBy]

theorem shiftBy_shiftBy : (p.shiftBy s).shiftBy t = p.shiftBy (s + t) := by
  simp only [shiftBy, Vec3.add_assoc]

theorem viewMatrix_shiftBy :
    (p.shiftBy s).viewMatrix = .ofFrame p.rightward p.backward (p.eye + s) := by
  simp only [viewMatrix_eq, rightward, backward, eye_shiftBy, up_shiftBy, direction_shiftBy]

theorem Proper.shiftBy {p : Pose ℝ} (h : p.Proper) : (p.shiftBy s).Proper := by
  constructor
  · intro heye
    apply h.eye_ne_center
    simpa [Pose.shiftBy, Vec3.ext_iff] using heye
  · intro k
    simpa using h.up_not_parallel k

end Shift

/-! ## Looking down -/

section Down

variable (eye up : Vec3 ℝ)

/-- The pose of a camera that looks straight down. -/
def lookingDown : Pose ℝ := ⟨eye, eye - Vec3.unitZ, up⟩

@[simp] theorem eye_lookingDown : (lookingDown eye up).eye = eye := rfl

@[simp] theorem up_lookingDown : (lookingDown eye up).up = up := rfl

@[simp] theorem direction_lookingDown : (lookingDown eye up).direction = ⟨0, 0, -1⟩ := by
  ext <;> simp [direction, lookingDown, Vec3.unitZ]

theorem proper_lookingDown {up : Vec3 ℝ} (hup : ¬(up.x = 0 ∧ up.y = 0)) :
    (lookingDown eye up).Proper := by
  constructor
  · intro heye
    have hz : eye.z = eye.z - 1 := congrArg Vec3.z heye
    linarith
  · intro k hparallel
    rw [direction_lookingDown, up_lookingDown] at hparallel
    apply hup
    simp [hparallel, Vec3.scale]

end Down

/-! ## Looking at the ground -/

/-- The line of sight goes along the ground or, from above it, up. -/
def LooksAway (p : Pose ℝ) : Prop := (0 < p.direction.z ∧ 0 ≤ p.eye.z) ∨ p.direction.z = 0

/-- Where the straight line along the direction of view hits the ground. -/
noncomputable def groundPoint (p : Pose ℝ) : Vec3 ℝ :=
  p.eye + p.direction.scale (-p.eye.z / p.direction.z)

theorem groundPoint_z {p : Pose ℝ} (h : p.direction.z ≠ 0) : p.groundPoint.z = 0 := by
  simp only [groundPoint, Vec3.scale, Vec3.add_z]
  field_simp
  ring

/-- A pose, its direction of unit length, that looks at a point of the ground
and that another viewport request would shift. -/
structure Aimed (p : Pose ℝ) (x y : ℝ) : Prop where
  proper : p.Proper
  direction_unit : p.direction.dot p.direction = 1
  not_looksAway : ¬p.LooksAway
  groundPoint_eq : p.groundPoint = ⟨x, y, 0⟩

end Pose

namespace Navigator

open Pose (lookingDown)

variable {p : Pose ℝ}

/-! ## Aiming -/

section Aiming

variable (x y : ℝ)

theorem aimedAt_of_looksAway (h : p.LooksAway) :
    aimedAt p x y = lookingDown ⟨x, y, p.eye.z⟩ (birdViewUp p.up p.direction) := by
  rw [Pose.LooksAway, ← beq_iff_eq] at h
  exact if_pos h

theorem aimedAt_of_not_looksAway (h : ¬p.LooksAway) :
    aimedAt p x y = p.shiftBy ⟨x - p.groundPoint.x, y - p.groundPoint.y, 0⟩ := by
  rw [Pose.LooksAway, ← beq_iff_eq] at h
  exact if_neg h

/-- Aiming at another point shifts the pose by as much. -/
theorem aimedAt_eq_shiftBy (p : Pose ℝ) (x' y' : ℝ) :
    aimedAt p x' y' = (aimedAt p x y).shiftBy ⟨x' - x, y' - y, 0⟩ := by
  by_cases h : p.LooksAway
  · rw [aimedAt_of_looksAway x y h, aimedAt_of_looksAway x' y' h]
    simp [lookingDown, Pose.shiftBy, Vec3.ext_iff]
  · rw [aimedAt_of_not_looksAway x y h, aimedAt_of_not_looksAway x' y' h, Pose.shiftBy_shiftBy]
    congr 1
    ext <;> simp

theorem parallelTolerance_nonneg : (0 : ℝ) ≤ parallelTolerance := by
  unfold parallelTolerance
  positivity

/-- The up vector of a bird's-eye view is not vertical. -/
theorem birdViewUp_not_vertical (up direction : Vec3 ℝ) :
    ¬((birdViewUp up direction).x = 0 ∧ (birdViewUp up direction).y = 0) := by
  simp only [birdViewUp]
  split
  · next hacross =>
    rintro ⟨hx, hy⟩
    have hzero : (up.cross Vec3.unitZ).norm = 0 :=
      Vec3.norm_eq_zero_iff.mpr (by simp [Vec3.cross, Vec3.unitZ, hx, hy])
    have := mul_nonneg parallelTolerance_nonneg up.norm_nonneg
    linarith
  · split
    · next hheading =>
      have hnorm := parallelTolerance_nonneg.trans_lt hheading
      rintro ⟨hx, hy⟩
      have hzero : (⟨direction.x, direction.y, 0⟩ : Vec3 ℝ).norm = 0 :=
        Vec3.norm_eq_zero_iff.mpr (by simpa [Vec3.normalize, hnorm.ne'] using And.intro hx hy)
      exact hnorm.ne' hzero
    · simp [Vec3.unitY]

theorem proper_aimedAt (hproper : p.Proper) : (aimedAt p x y).Proper := by
  by_cases h : p.LooksAway
  · rw [aimedAt_of_looksAway x y h]
    exact Pose.proper_lookingDown _ (birdViewUp_not_vertical _ _)
  · rw [aimedAt_of_not_looksAway x y h]
    exact hproper.shiftBy _

/-- **A viewport request aims the camera at its point.** -/
theorem aimed_aimedAt (hproper : p.Proper) (hunit : p.direction.dot p.direction = 1) :
    (aimedAt p x y).Aimed x y := by
  have hproper' := proper_aimedAt x y hproper
  by_cases h : p.LooksAway
  · rw [aimedAt_of_looksAway x y h] at hproper' ⊢
    refine ⟨hproper', by simp [Vec3.dot], by simp [Pose.LooksAway], ?_⟩
    ext <;> simp [Pose.groundPoint, Vec3.scale]
  · rw [aimedAt_of_not_looksAway x y h] at hproper' ⊢
    refine ⟨hproper', by simpa using hunit, by simpa [Pose.LooksAway] using h, ?_⟩
    ext
    · simp [Pose.groundPoint]
      ring
    · simp [Pose.groundPoint]
      ring
    · apply Pose.groundPoint_z
      rw [Pose.direction_shiftBy]
      exact fun hzero => h (.inr hzero)

/-- The next request shifts an aimed camera from point to point. -/
theorem viewMatrix_aimedAt_of_aimed {x y : ℝ} (h : p.Aimed x y) (x' y' : ℝ) :
    (aimedAt (.ofViewMatrix p.viewMatrix) x' y').viewMatrix =
      (p.shiftBy ⟨x' - x, y' - y, 0⟩).viewMatrix := by
  have hframe := h.proper.isFrame
  obtain ⟨q, hq⟩ : ∃ q, q = Pose.ofFrame p.rightward p.backward p.eye := ⟨_, rfl⟩
  have hdirection : q.direction = p.direction := by
    rw [hq, Pose.direction_ofFrame, Pose.backward, Vec3.normalize_of_unit, Vec3.neg_neg]
    rw [Vec3.neg_dot_neg, h.direction_unit]
  have heye : q.eye = p.eye := by rw [hq, Pose.eye_ofFrame]
  have hground : q.groundPoint = ⟨x, y, 0⟩ := by
    rw [Pose.groundPoint, hdirection, heye]
    exact h.groundPoint_eq
  have hlooks : ¬q.LooksAway := by
    rw [Pose.LooksAway, hdirection, heye]
    exact h.not_looksAway
  rw [h.proper.ofViewMatrix_viewMatrix, ← hq, aimedAt_of_not_looksAway _ _ hlooks, hground,
    Pose.viewMatrix_shiftBy, Pose.viewMatrix_shiftBy, heye, hq, Pose.rightward_ofFrame hframe,
    Pose.backward_ofFrame hframe]

/-- **Of two requests the second one counts.** -/
theorem viewMatrix_aimedAt_aimedAt (hproper : p.Proper) (hunit : p.direction.dot p.direction = 1)
    (x' y' : ℝ) :
    (aimedAt (.ofViewMatrix (aimedAt p x y).viewMatrix) x' y').viewMatrix =
      (aimedAt p x' y').viewMatrix := by
  rw [viewMatrix_aimedAt_of_aimed (aimed_aimedAt x y hproper hunit), ← aimedAt_eq_shiftBy]

end Aiming

end Navigator

/-! ## Sequences of requests -/

/-- A camera that has the view matrix that it was given last, and stands where
its view matrix says. -/
class LawfulCamera (C : Type) [Camera C ℝ] : Prop where
  viewMatrix_setViewMatrix (c : C) (m : Matrix4 ℝ) :
    Camera.viewMatrix (Camera.setViewMatrix c m) = m
  pose_eq (c : C) : Camera.pose c = .ofViewMatrix (Camera.viewMatrix c)

instance : LawfulCamera (SceneCamera ℝ) where
  viewMatrix_setViewMatrix _ _ := rfl
  pose_eq _ := rfl

instance {C : Type} [Camera C ℝ] [LawfulCamera C] : LawfulCamera (Recorder C ℝ) where
  viewMatrix_setViewMatrix r m := LawfulCamera.viewMatrix_setViewMatrix r.camera m
  pose_eq r := LawfulCamera.pose_eq r.camera

/-- The requests that aim the camera at a point of the ground. -/
def Request.isViewport {α : Type} : Request α → Bool
  | .setViewport .. => true
  | .setViewportFrom .. => true
  | .setViewportBoundary _ => true
  | _ => false

namespace Navigator

variable {C : Type} [Camera C ℝ]

theorem exists_perform_eq_aimAt {r : Request ℝ} (h : r.isViewport = true) :
    ∃ x y, ∀ n : Navigator C ℝ, n.perform r = n.aimAt x y := by
  cases r with
  | setViewport zoom x y => exact ⟨x, y, fun _ => rfl⟩
  | setViewportFrom x y z => exact ⟨x, y, fun _ => rfl⟩
  | setViewportBoundary viewport => exact ⟨viewport.centerX, viewport.centerY, fun _ => rfl⟩
  | _ => simp [Request.isViewport] at h

variable [LawfulCamera C] {n : Navigator C ℝ}

theorem pose_eq (n : Navigator C ℝ) : n.pose = .ofViewMatrix (Camera.viewMatrix n.camera) :=
  LawfulCamera.pose_eq n.camera

theorem proper_pose (h : (Camera.viewMatrix n.camera).IsRigid) : n.pose.Proper := by
  rw [pose_eq]
  exact h.proper_ofViewMatrix

theorem direction_unit (h : (Camera.viewMatrix n.camera).IsRigid) :
    n.pose.direction.dot n.pose.direction = 1 := by
  rw [pose_eq]
  exact h.direction_unit

theorem viewMatrix_aimAt (n : Navigator C ℝ) (x y : ℝ) :
    Camera.viewMatrix (n.aimAt x y).camera = (aimedAt n.pose x y).viewMatrix :=
  LawfulCamera.viewMatrix_setViewMatrix _ _

theorem isRigid_aimAt (h : (Camera.viewMatrix n.camera).IsRigid) (x y : ℝ) :
    (Camera.viewMatrix (n.aimAt x y).camera).IsRigid := by
  rw [viewMatrix_aimAt]
  exact (proper_aimedAt x y (proper_pose h)).isRigid_viewMatrix

theorem pose_aimAt (n : Navigator C ℝ) (x y : ℝ) :
    (n.aimAt x y).pose = .ofViewMatrix (aimedAt n.pose x y).viewMatrix := by
  rw [pose_eq, viewMatrix_aimAt]

theorem viewMatrix_aimAt_aimAt (h : (Camera.viewMatrix n.camera).IsRigid) (x y x' y' : ℝ) :
    Camera.viewMatrix ((n.aimAt x y).aimAt x' y').camera =
      Camera.viewMatrix (n.aimAt x' y').camera := by
  rw [viewMatrix_aimAt, viewMatrix_aimAt, pose_aimAt]
  exact viewMatrix_aimedAt_aimedAt x y (proper_pose h) (direction_unit h) x' y'

/-- After any viewport requests a rigid camera is where the last one alone
would have put it. -/
theorem performAll_viewMatrix_eq_perform_last (h : (Camera.viewMatrix n.camera).IsRigid)
    (earlier : List (Request ℝ)) (last : Request ℝ)
    (hearlier : ∀ r ∈ earlier, r.isViewport = true) (hlast : last.isViewport = true) :
    Camera.viewMatrix (n.performAll (earlier ++ [last])).camera =
      Camera.viewMatrix (n.perform last).camera := by
  obtain ⟨x', y', hperform'⟩ := exists_perform_eq_aimAt (C := C) hlast
  induction earlier generalizing n with
  | nil => rfl
  | cons first rest ih =>
    have hrest := List.forall_mem_cons.mp hearlier
    obtain ⟨x, y, hperform⟩ := exists_perform_eq_aimAt (C := C) hrest.1
    calc Camera.viewMatrix (n.performAll (first :: rest ++ [last])).camera
        = Camera.viewMatrix ((n.perform first).performAll (rest ++ [last])).camera := rfl
      _ = Camera.viewMatrix ((n.perform first).perform last).camera := by
        apply ih _ hrest.2
        rw [hperform]
        exact isRigid_aimAt h x y
      _ = Camera.viewMatrix (n.perform last).camera := by
        rw [hperform, hperform', hperform', viewMatrix_aimAt_aimAt h]

/-- A camera along the ground: the first request turns it into a bird's-eye
view, and the second one would have done so too. -/
theorem performAll_viewMatrix_along_ground :
    let camera : SceneCamera ℝ := .atPose Pose.alongGround ⟨60, 1, 1, 100⟩
    let n : Navigator (SceneCamera ℝ) ℝ := .ofViewport camera ⟨0, 0, 4, 3⟩
    let earlier : List (Request ℝ) := [.setViewport 100 7 (-3)]
    let last : Request ℝ := .setViewportBoundary ⟨0, 0, 2, 6⟩
    camera.viewMatrix.IsRigid ∧ (∀ r ∈ earlier, r.isViewport = true) ∧ last.isViewport = true ∧
      (n.performAll (earlier ++ [last])).camera.viewMatrix =
        (n.perform last).camera.viewMatrix := by
  intro camera n earlier last
  have hrigid : camera.viewMatrix.IsRigid := Pose.proper_alongGround.isRigid_viewMatrix
  have hearlier : ∀ r ∈ earlier, r.isViewport = true := by simp [earlier, Request.isViewport]
  exact ⟨hrigid, hearlier, rfl,
    performAll_viewMatrix_eq_perform_last (n := n) hrigid earlier last hearlier rfl⟩

end Navigator

end Lookout

/-
Lookout.Proofs.Scene.LineOfSight — a viewport request aims the camera at its
point of the ground.

The pose that is aimed at a point looks at it (`Navigator.aimed_aimedAt`), and
the camera takes this pose up: its eye and its direction always
(`eye_and_direction_aimAt`), and all of it where the request is met by a shift,
because the pose of a rigid view matrix survives a shift and another round trip
(`ofViewMatrix_viewMatrix_shiftBy`).
-/
import Lookout.Proofs.Scene.Aim
import Lookout.Proofs.Scene.RoundTrip

namespace Lookout

open Vec3 (IsFrame)

namespace Pose

/-! ## Shifted poses -/

theorem shiftBy_ofFrame (x z eye s : Vec3 ℝ) :
    (ofFrame x z eye).shiftBy s = ofFrame x z (eye + s) := by
  have hcenter : eye + -z + s = eye + s + -z := by
    ext <;> simp <;> ring
  rw [shiftBy, ofFrame, ofFrame, hcenter]

/-- A pose that has been recovered is recovered again after a shift, and the
rotation in its view matrix is the one that there was. -/
theorem ofViewMatrix_viewMatrix_shiftBy {m : Matrix4 ℝ} (h : m.IsRigid) (s : Vec3 ℝ) :
    ofViewMatrix ((ofViewMatrix m).shiftBy s).viewMatrix = (ofViewMatrix m).shiftBy s ∧
      ((ofViewMatrix m).shiftBy s).viewMatrix.rotation = m.rotation := by
  obtain ⟨x, z, eye, hframe, rfl⟩ := Matrix4.isRigid_iff.mp h
  rw [ofViewMatrix_ofFrame hframe, shiftBy_ofFrame, viewMatrix_ofFrame hframe,
    ofViewMatrix_ofFrame hframe]
  exact ⟨rfl, rfl⟩

end Pose

namespace Boundary

/-! ## Centres -/

theorem lesser_add_greater (a b : ℝ) : lesser a b + greater a b = a + b := by
  simp only [lesser, greater, beq_self_eq_true, if_true]
  rcases lt_trichotomy a b with h | rfl | h
  · rw [if_pos h, if_neg h.le.not_gt]
  · rw [if_neg (lt_irrefl a)]
  · rw [if_neg h.le.not_gt, if_pos h, add_comm]

theorem center_ofCorners (x₁ y₁ x₂ y₂ : ℝ) :
    (ofCorners x₁ y₁ x₂ y₂).centerX = (x₁ + x₂) / 2 ∧
      (ofCorners x₁ y₁ x₂ y₂).centerY = (y₁ + y₂) / 2 := by
  simp [centerX, centerY, ofCorners, lesser_add_greater]

end Boundary

/-! ## Aimed cameras -/

namespace Navigator

variable {C : Type} [Camera C ℝ]

/-- What becomes of a camera that is aimed at the point `(x, y, 0)`: its line of
sight passes through the point, from the height that it had. A camera that looks
away is moved to where it has the point below or above it, and looks straight
down; any other keeps its rotation and is shifted along the ground. -/
structure Aims (n after : Navigator C ℝ) (x y : ℝ) : Prop where
  hits : ∃ t, after.pose.eye + after.pose.direction.scale t = ⟨x, y, 0⟩
  height : after.pose.eye.z = n.pose.eye.z
  turned : n.pose.LooksAway →
    after.pose.eye = ⟨x, y, n.pose.eye.z⟩ ∧ after.pose.direction = -Vec3.unitZ
  shifted : ¬n.pose.LooksAway →
    (Camera.viewMatrix after.camera).rotation = (Camera.viewMatrix n.camera).rotation ∧
      after.pose.direction = n.pose.direction ∧ after.pose.up = n.pose.up ∧
      ∃ dx dy, after.pose.eye = n.pose.eye + ⟨dx, dy, 0⟩

variable [LawfulCamera C] {n : Navigator C ℝ}

theorem aimed_aimedAt_pose (h : (Camera.viewMatrix n.camera).IsRigid) (x y : ℝ) :
    (aimedAt n.pose x y).Aimed x y :=
  aimed_aimedAt x y (proper_pose h) (direction_unit h)

theorem eye_and_direction_aimAt (h : (Camera.viewMatrix n.camera).IsRigid) (x y : ℝ) :
    (n.aimAt x y).pose.eye = (aimedAt n.pose x y).eye ∧
      (n.aimAt x y).pose.direction = (aimedAt n.pose x y).direction := by
  have haimed := aimed_aimedAt_pose h x y
  rw [pose_aimAt, haimed.proper.ofViewMatrix_viewMatrix_eq,
    Vec3.normalize_of_unit haimed.direction_unit]
  refine ⟨rfl, ?_⟩
  ext <;> simp [Pose.direction]

theorem eye_z_aimedAt (p : Pose ℝ) (x y : ℝ) : (aimedAt p x y).eye.z = p.eye.z := by
  by_cases h : p.LooksAway
  · rw [aimedAt_of_looksAway x y h, Pose.eye_lookingDown]
  · rw [aimedAt_of_not_looksAway x y h]
    simp

theorem aims_aimAt (h : (Camera.viewMatrix n.camera).IsRigid) (x y : ℝ) :
    n.Aims (n.aimAt x y) x y := by
  obtain ⟨heye, hdirection⟩ := eye_and_direction_aimAt h x y
  refine ⟨?_, (congrArg Vec3.z heye).trans (eye_z_aimedAt n.pose x y), ?_, ?_⟩
  · have haimed := aimed_aimedAt_pose h x y
    refine ⟨-(aimedAt n.pose x y).eye.z / (aimedAt n.pose x y).direction.z, ?_⟩
    rw [heye, hdirection]
    exact haimed.groundPoint_eq
  · intro haway
    rw [heye, hdirection, aimedAt_of_looksAway x y haway, Pose.eye_lookingDown,
      Pose.direction_lookingDown]
    refine ⟨rfl, ?_⟩
    ext <;> simp [Vec3.unitZ]
  · intro halong
    have hshift := aimedAt_of_not_looksAway x y halong
    obtain ⟨hpose, hrotation⟩ := Pose.ofViewMatrix_viewMatrix_shiftBy h
      ⟨x - n.pose.groundPoint.x, y - n.pose.groundPoint.y, 0⟩
    rw [← pose_eq] at hpose hrotation
    have hafter : (n.aimAt x y).pose =
        n.pose.shiftBy ⟨x - n.pose.groundPoint.x, y - n.pose.groundPoint.y, 0⟩ := by
      rw [pose_aimAt, hshift]
      exact hpose
    rw [hafter, viewMatrix_aimAt, hshift]
    exact ⟨hrotation, Pose.direction_shiftBy _ _, Pose.up_shiftBy _ _, _, _, rfl⟩

/-- A viewport request aims a rigid camera at its point, whether it gives the
point itself, with any zoom or height, or as the centre of a rectangle. -/
theorem perform_viewport_aims (h : (Camera.viewMatrix n.camera).IsRigid) :
    (∀ x y z, n.Aims (n.perform (.setViewportFrom x y z)) x y) ∧
      (∀ zoom x y, n.Aims (n.perform (.setViewport zoom x y)) x y) ∧
      (∀ b, n.Aims (n.perform (.setViewportBoundary b)) b.centerX b.centerY) ∧
      ∀ x₁ y₁ x₂ y₂, n.Aims (n.perform (.setViewportBoundary (.ofCorners x₁ y₁ x₂ y₂)))
        ((x₁ + x₂) / 2) ((y₁ + y₂) / 2) := by
  refine ⟨fun x y _ => aims_aimAt h x y, fun _ x y => aims_aimAt h x y,
    fun b => aims_aimAt h b.centerX b.centerY, fun x₁ y₁ x₂ y₂ => ?_⟩
  obtain ⟨hx, hy⟩ := Boundary.center_ofCorners x₁ y₁ x₂ y₂
  rw [← hx, ← hy]
  exact aims_aimAt h _ _

/-- A camera that looks down at a slant is shifted, at its height, to where its
line of sight hits the point. -/
theorem perform_viewport_aims_slanted :
    let pose : Pose ℝ := ⟨⟨0, -75, 100⟩, ⟨0, 0, 0⟩, Vec3.unitZ⟩
    let n : Navigator (SceneCamera ℝ) ℝ :=
      .ofViewport (.atPose pose ⟨90, 1, 1, 100⟩) ⟨0, 0, 4, 3⟩
    n.camera.viewMatrix.IsRigid ∧ n.pose.direction = ⟨0, 3 / 5, -4 / 5⟩ ∧
      (n.perform (.setViewportFrom 10 10 55)).pose.eye = ⟨10, -65, 100⟩ := by
  intro pose n
  have hview : pose.direction = ⟨0, 75, -100⟩ := by
    ext <;> norm_num [pose, Pose.direction]
  have hproper : pose.Proper := by
    constructor
    · norm_num [pose]
    · intro k hparallel
      rw [hview] at hparallel
      have hy : 0 = 75 * k := congrArg Vec3.y hparallel
      have hz : 1 = -100 * k := congrArg Vec3.z hparallel
      linarith
  have hrigid : n.camera.viewMatrix.IsRigid := hproper.isRigid_viewMatrix
  have hpose : n.pose = ⟨pose.eye, pose.eye + pose.direction.normalize, pose.upward⟩ :=
    hproper.ofViewMatrix_viewMatrix_eq
  have hlength : (⟨0, 75, -100⟩ : Vec3 ℝ).norm = 125 :=
    Vec3.norm_eq_of_dot_self (by norm_num) (by norm_num [Vec3.dot])
  have hdirection : n.pose.direction = ⟨0, 3 / 5, -4 / 5⟩ := by
    rw [hpose, hview]
    ext <;> norm_num [Pose.direction, Vec3.normalize, hlength]
  have heye : n.pose.eye = ⟨0, -75, 100⟩ := by rw [hpose]
  obtain ⟨haims, -⟩ := perform_viewport_aims (n := n) hrigid
  obtain ⟨⟨t, ht⟩, hheight, -, hshifted⟩ := haims 10 10 55
  have halong : ¬n.pose.LooksAway := by
    norm_num [Pose.LooksAway, hdirection]
  obtain ⟨-, hsame, -⟩ := hshifted halong
  rw [hsame, hdirection] at ht
  rw [heye] at hheight
  simp only [Vec3.ext_iff, Vec3.add_x, Vec3.add_y, Vec3.add_z, Vec3.scale] at ht
  obtain ⟨hx, hy, hz⟩ := ht
  refine ⟨hrigid, hdirection, ?_⟩
  ext
  · linarith
  · linarith
  · exact hheight

end Navigator

end Lookout

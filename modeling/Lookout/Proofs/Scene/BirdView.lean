/-
Lookout.Proofs.Scene.BirdView — the up vector of a bird's-eye view can always be
used.

A camera that looks straight down can have any up vector that is not vertical.
The one that it gets is the vector that it had before, unless that is nearly
vertical, or else the heading of its last direction, unless that has none. Of two
directions at right angles one is far from the vertical (`one_le_horizontal_add`),
so a rigid camera has a heading wherever its up vector is of no use
(`heading_of_nearly_vertical`).
-/
import Lookout.Proofs.Scene.Aim

namespace Lookout

namespace Vec3

/-! ## Horizontal parts -/

/-- The part of a vector along the ground. -/
def horizontal (v : Vec3 ℝ) : Vec3 ℝ := ⟨v.x, v.y, 0⟩

theorem norm_cross_unitZ (v : Vec3 ℝ) : (v.cross unitZ).norm = v.horizontal.norm := by
  apply norm_eq_of_dot_self_eq
  simp only [dot, cross, unitZ, horizontal]
  ring

theorem horizontal_eq_zero_iff {v : Vec3 ℝ} : v.horizontal = ⟨0, 0, 0⟩ ↔ v.x = 0 ∧ v.y = 0 := by
  simp [horizontal]

theorem horizontal_dot_self (v : Vec3 ℝ) :
    v.horizontal.dot v.horizontal = v.dot v - v.z * v.z := by
  simp only [dot, horizontal]
  ring

/-- Two unit vectors at right angles have a good part along the ground between
them: the vertical has a part of at most one in the plane of the two. -/
theorem one_le_horizontal_add {u v : Vec3 ℝ} (hu : u.dot u = 1) (hv : v.dot v = 1)
    (huv : u.dot v = 0) :
    1 ≤ u.horizontal.dot u.horizontal + v.horizontal.dot v.horizontal := by
  have hthird : (u.cross v).z * (u.cross v).z = 1 - u.z * u.z - v.z * v.z := by
    simp only [dot] at hu hv huv
    simp only [cross]
    linear_combination (v.x * v.x + v.y * v.y) * hu + (1 - u.z * u.z) * hv -
      (u.x * v.x + u.y * v.y - u.z * v.z) * huv
  have hnonneg := mul_self_nonneg (u.cross v).z
  rw [horizontal_dot_self, horizontal_dot_self, hu, hv]
  linarith

end Vec3

namespace Matrix4.IsRigid

open Pose (ofViewMatrix)

variable {m : Matrix4 ℝ}

theorem up_unit (h : m.IsRigid) : (ofViewMatrix m).up.dot (ofViewMatrix m).up = 1 := by
  obtain ⟨x, z, eye, hframe, rfl⟩ := isRigid_iff.mp h
  rw [Pose.ofViewMatrix_ofFrame hframe, Pose.up_ofFrame, hframe.y_unit]

theorem up_dot_direction (h : m.IsRigid) :
    (ofViewMatrix m).up.dot (ofViewMatrix m).direction = 0 := by
  obtain ⟨x, z, eye, hframe, rfl⟩ := isRigid_iff.mp h
  rw [Pose.ofViewMatrix_ofFrame hframe, Pose.up_ofFrame, Pose.direction_ofFrame]
  have hright : (z.cross x).dot z = 0 := Vec3.dot_cross_left z x
  simp only [Vec3.dot, Vec3.neg_x, Vec3.neg_y, Vec3.neg_z] at hright ⊢
  linarith

end Matrix4.IsRigid

namespace Navigator

open Pose (lookingDown ofViewMatrix)

/-! ## Cases -/

section Cases

variable {up direction : Vec3 ℝ}

theorem parallelTolerance_eq : (parallelTolerance : ℝ) = 1 / 10 ^ 9 := by
  norm_num [parallelTolerance]

theorem birdViewUp_of_not_vertical (h : 1 / 10 ^ 9 * up.norm < up.horizontal.norm) :
    birdViewUp up direction = up := by
  rw [← Vec3.norm_cross_unitZ, ← parallelTolerance_eq] at h
  exact if_pos h

theorem birdViewUp_of_heading (hvertical : up.horizontal.norm ≤ 1 / 10 ^ 9 * up.norm)
    (hheading : 1 / 10 ^ 9 < direction.horizontal.norm) :
    birdViewUp up direction = direction.horizontal.normalize := by
  rw [← Vec3.norm_cross_unitZ, ← parallelTolerance_eq] at hvertical
  rw [← parallelTolerance_eq] at hheading
  rw [birdViewUp, if_neg hvertical.not_gt]
  exact if_pos hheading

/-- What is at right angles to a nearly vertical direction has a heading. -/
theorem heading_of_nearly_vertical (hup : up.dot up = 1) (hdirection : direction.dot direction = 1)
    (hright : up.dot direction = 0) (hvertical : up.horizontal.norm ≤ 1 / 10 ^ 9 * up.norm) :
    1 / 10 ^ 9 < direction.horizontal.norm := by
  rw [Vec3.norm_of_unit hup, mul_one] at hvertical
  have hsum := Vec3.one_le_horizontal_add hup hdirection hright
  rw [← Vec3.norm_mul_self, ← Vec3.norm_mul_self] at hsum
  have hsquare := mul_self_le_mul_self up.horizontal.norm_nonneg hvertical
  by_contra hsmall
  have hsquare' := mul_self_le_mul_self direction.horizontal.norm_nonneg (not_lt.mp hsmall)
  linarith

end Cases

/-- **A camera that is turned straight down always gets an up vector that it can
use**, whatever it had before, and so its view matrix is rigid. An up vector that
is not nearly vertical is kept. From a rigid camera whose up vector is nearly
vertical its heading is taken, which is never too short to be told: the `Y` axis
is for other cameras only. -/
theorem birdViewUp_usable (up direction : Vec3 ℝ) :
    (birdViewUp up direction).horizontal ≠ ⟨0, 0, 0⟩ ∧
      (∀ eye, (lookingDown eye (birdViewUp up direction)).viewMatrix.IsRigid) ∧
      (1 / 10 ^ 9 * up.norm < up.horizontal.norm → birdViewUp up direction = up) ∧
      ∀ m : Matrix4 ℝ, m.IsRigid → up = (ofViewMatrix m).up →
        direction = (ofViewMatrix m).direction → up.horizontal.norm ≤ 1 / 10 ^ 9 * up.norm →
        1 / 10 ^ 9 < direction.horizontal.norm ∧
          birdViewUp up direction = direction.horizontal.normalize := by
  have hnotVertical := birdViewUp_not_vertical up direction
  refine ⟨fun hzero => hnotVertical (Vec3.horizontal_eq_zero_iff.mp hzero), ?_,
    birdViewUp_of_not_vertical, ?_⟩
  · intro eye
    exact (Pose.proper_lookingDown eye hnotVertical).isRigid_viewMatrix
  · rintro m hrigid rfl rfl hvertical
    have hheading := heading_of_nearly_vertical hrigid.up_unit hrigid.direction_unit
      hrigid.up_dot_direction hvertical
    exact ⟨hheading, birdViewUp_of_heading hvertical hheading⟩

/-- A camera that looks north along the ground is turned straight down with north
up, and one that has north up already keeps it. -/
theorem birdViewUp_usable_north :
    let m : Matrix4 ℝ := .ofFrame ⟨1, 0, 0⟩ ⟨0, -1, 0⟩ ⟨0, -10, 5⟩
    let north : Vec3 ℝ := Vec3.unitY
    m.IsRigid ∧ Vec3.unitZ = (ofViewMatrix m).up ∧ north = (ofViewMatrix m).direction ∧
      (Vec3.unitZ : Vec3 ℝ).horizontal.norm ≤ 1 / 10 ^ 9 * (Vec3.unitZ : Vec3 ℝ).norm ∧
      birdViewUp Vec3.unitZ north = north.horizontal.normalize ∧
      1 / 10 ^ 9 * north.norm < north.horizontal.norm ∧ birdViewUp north north = north := by
  intro m north
  have hframe : Vec3.IsFrame ⟨1, 0, 0⟩ ⟨0, -1, 0⟩ := by constructor <;> norm_num [Vec3.dot]
  have hrigid : m.IsRigid := Matrix4.ofFrame_isRigid hframe _
  have hpose : ofViewMatrix m = .ofFrame ⟨1, 0, 0⟩ ⟨0, -1, 0⟩ ⟨0, -10, 5⟩ :=
    Pose.ofViewMatrix_ofFrame hframe _
  have hup : Vec3.unitZ = (ofViewMatrix m).up := by
    rw [hpose, Pose.up_ofFrame]
    ext <;> norm_num [Vec3.unitZ, Vec3.cross]
  have hdirection : north = (ofViewMatrix m).direction := by
    rw [hpose, Pose.direction_ofFrame]
    ext <;> norm_num [north, Vec3.unitY]
  have hvertical : (Vec3.unitZ : Vec3 ℝ).horizontal.norm ≤
      1 / 10 ^ 9 * (Vec3.unitZ : Vec3 ℝ).norm := by
    have hzero : (Vec3.unitZ : Vec3 ℝ).horizontal.norm = 0 := Vec3.norm_eq_zero_iff.mpr rfl
    rw [hzero]
    exact mul_nonneg (by norm_num) (Vec3.norm_nonneg _)
  have hnorth : north.norm = 1 := Vec3.norm_of_unit (by norm_num [north, Vec3.unitY, Vec3.dot])
  have hflat : 1 / 10 ^ 9 * north.norm < north.horizontal.norm := by
    have hsame : north.horizontal = north := rfl
    rw [hsame, hnorth]
    norm_num
  obtain ⟨-, -, -, hturned⟩ := birdViewUp_usable Vec3.unitZ north
  obtain ⟨-, -, hkept, -⟩ := birdViewUp_usable north north
  exact ⟨hrigid, hup, hdirection, hvertical, (hturned m hrigid hup hdirection hvertical).2, hflat,
    hkept hflat⟩

end Navigator

end Lookout

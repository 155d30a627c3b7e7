/-
Lookout.Proofs.Scene.Rigid — rigid view matrices, and the poses behind them.

A view matrix is rigid if it rotates and shifts, and nothing else. Rigid view
matrices are those of a frame at an eye (`isRigid_iff`), and such a matrix and
the pose that `Pose.ofViewMatrix` recovers from it determine each other
(`ofViewMatrix_ofFrame`, `viewMatrix_ofFrame`). A proper pose, which knows
where it looks and which way is up, has a rigid view matrix
(`Proper.isRigid_viewMatrix`).
-/
import Lookout.Proofs.Scene.Space
import Lookout.Scene.Pose
import Mathlib.LinearAlgebra.UnitaryGroup

namespace Lookout

open Vec3 (IsFrame)

namespace Matrix4

/-! ## Rigid transforms -/

/-- The rotation in a transform. -/
def rotation (m : Matrix4 ℝ) : Matrix (Fin 3) (Fin 3) ℝ :=
  !![m.first.x, m.first.y, m.first.z;
    m.second.x, m.second.y, m.second.z;
    m.third.x, m.third.y, m.third.z]

/-- A rotation, orthonormal and right-handed, and a shift. -/
structure IsRigid (m : Matrix4 ℝ) : Prop where
  rotation : m.rotation ∈ Matrix.specialOrthogonalGroup (Fin 3) ℝ
  fourth : m.fourth = ⟨0, 0, 0, 1⟩

/-- The transform to the coordinates of a frame with its origin at an eye. -/
def ofFrame (x z eye : Vec3 ℝ) : Matrix4 ℝ :=
  .ofRotation x (z.cross x) z ⟨x.dot (-eye), (z.cross x).dot (-eye), z.dot (-eye)⟩

section Rows

variable (x y z offset : Vec3 ℝ)

theorem rotation_mul_transpose :
    (ofRotation x y z offset).rotation * (ofRotation x y z offset).rotation.transpose =
      !![x.dot x, x.dot y, x.dot z; y.dot x, y.dot y, y.dot z; z.dot x, z.dot y, z.dot z] := by
  ext i j
  fin_cases i <;> fin_cases j <;>
    simp [rotation, ofRotation, Vec3.dot, Matrix.mul_apply, Fin.sum_univ_three]

theorem det_rotation : (ofRotation x y z offset).rotation.det = y.dot (z.cross x) := by
  simp only [rotation, ofRotation, Vec3.dot, Vec3.cross, Matrix.det_fin_three]
  simp
  ring

theorem rotation_ofRotation_mem_iff :
    (ofRotation x y z offset).rotation ∈ Matrix.specialOrthogonalGroup (Fin 3) ℝ ↔
      IsFrame x z ∧ y = z.cross x := by
  rw [Matrix.mem_specialOrthogonalGroup_iff, Matrix.mem_orthogonalGroup_iff,
    rotation_mul_transpose, det_rotation]
  constructor
  · intro h
    obtain ⟨hproducts, hdet⟩ := h
    have hentry (i j : Fin 3) := congrFun (congrFun hproducts i) j
    have hframe : IsFrame x z := ⟨hentry 0 0, hentry 2 2, hentry 0 2⟩
    exact ⟨hframe, Vec3.eq_of_dot_eq_one (hentry 1 1) hframe.y_unit hdet⟩
  · rintro ⟨h, rfl⟩
    refine ⟨?_, h.y_unit⟩
    simp [h.x_unit, h.z_unit, h.x_dot_z, h.z_dot_x, h.y_unit, Vec3.dot_cross_left,
      Vec3.dot_cross_right, Vec3.dot_comm _ (z.cross x), Matrix.one_fin_three]

end Rows

theorem ofFrame_isRigid {x z : Vec3 ℝ} (h : IsFrame x z) (eye : Vec3 ℝ) :
    (ofFrame x z eye).IsRigid :=
  ⟨(rotation_ofRotation_mem_iff _ _ _ _).mpr ⟨h, rfl⟩, rfl⟩

theorem rotateBack_ofRotation (x y z offset v : Vec3 ℝ) :
    (ofRotation x y z offset).rotateBack v = x.scale v.x + y.scale v.y + z.scale v.z := rfl

/-- A rotation to the axes of a frame is followed by the shift of some eye to the origin. -/
theorem ofRotation_eq_ofFrame {x z : Vec3 ℝ} (h : IsFrame x z) (offset : Vec3 ℝ) :
    ofRotation x (z.cross x) z offset =
      ofFrame x z (-(x.scale offset.x + (z.cross x).scale offset.y + z.scale offset.z)) := by
  obtain ⟨hx, hy, hz⟩ := h.dot_sum offset.x offset.y offset.z
  simp only [ofFrame, Vec3.neg_neg, hx, hy, hz]

/-- **The rigid transforms are those to the frames of space.** -/
theorem isRigid_iff {m : Matrix4 ℝ} :
    m.IsRigid ↔ ∃ x z eye, IsFrame x z ∧ m = ofFrame x z eye := by
  constructor
  · intro h
    obtain ⟨⟨x₁, x₂, x₃, o₁⟩, ⟨y₁, y₂, y₃, o₂⟩, ⟨z₁, z₂, z₃, o₃⟩, fourth⟩ := m
    obtain ⟨hrotation, rfl⟩ := h
    obtain ⟨hframe, hy⟩ := (rotation_ofRotation_mem_iff
      ⟨x₁, x₂, x₃⟩ ⟨y₁, y₂, y₃⟩ ⟨z₁, z₂, z₃⟩ ⟨o₁, o₂, o₃⟩).mp hrotation
    exact ⟨_, _, _, hframe, hy ▸ ofRotation_eq_ofFrame hframe ⟨o₁, o₂, o₃⟩⟩
  · rintro ⟨x, z, eye, h, rfl⟩
    exact ofFrame_isRigid h eye

end Matrix4

namespace Pose

variable {x z : Vec3 ℝ}

/-! ## Poses of frames -/

/-- The pose of a camera at an eye that looks against the last axis of a frame. -/
def ofFrame (x z eye : Vec3 ℝ) : Pose ℝ := ⟨eye, eye + -z, z.cross x⟩

/-- Against the direction of view. -/
noncomputable def backward (p : Pose ℝ) : Vec3 ℝ := (-p.direction).normalize

/-- At right angles to up and to the direction of view. -/
noncomputable def rightward (p : Pose ℝ) : Vec3 ℝ := (p.up.cross p.backward).normalize

theorem viewMatrix_eq (p : Pose ℝ) :
    p.viewMatrix = .ofFrame p.rightward p.backward p.eye := rfl

@[simp] theorem eye_ofFrame (x z eye : Vec3 ℝ) : (ofFrame x z eye).eye = eye := rfl

@[simp] theorem up_ofFrame (x z eye : Vec3 ℝ) : (ofFrame x z eye).up = z.cross x := rfl

@[simp] theorem direction_ofFrame (x z eye : Vec3 ℝ) : (ofFrame x z eye).direction = -z := by
  ext <;> simp [direction, ofFrame]

theorem backward_ofFrame (h : IsFrame x z) (eye : Vec3 ℝ) : (ofFrame x z eye).backward = z := by
  rw [backward, direction_ofFrame, Vec3.neg_neg, Vec3.normalize_of_unit h.z_unit]

theorem rightward_ofFrame (h : IsFrame x z) (eye : Vec3 ℝ) : (ofFrame x z eye).rightward = x := by
  rw [rightward, backward_ofFrame h, up_ofFrame, h.y_cross_z, Vec3.normalize_of_unit h.x_unit]

theorem viewMatrix_ofFrame (h : IsFrame x z) (eye : Vec3 ℝ) :
    (ofFrame x z eye).viewMatrix = .ofFrame x z eye := by
  rw [viewMatrix_eq, rightward_ofFrame h, backward_ofFrame h, eye_ofFrame]

theorem ofViewMatrix_ofFrame (h : IsFrame x z) (eye : Vec3 ℝ) :
    ofViewMatrix (.ofFrame x z eye) = ofFrame x z eye := by
  have heye : (Matrix4.ofFrame x z eye).rotateBack (Matrix4.ofFrame x z eye).offset = -eye :=
    h.expand (-eye)
  have hforward : (Matrix4.ofFrame x z eye).rotateBack (-Vec3.unitZ) = -z := by
    ext <;> simp [Matrix4.ofFrame, Matrix4.rotateBack_ofRotation, Vec3.unitZ, Vec3.scale]
  have hup : (Matrix4.ofFrame x z eye).rotateBack Vec3.unitY = z.cross x := by
    ext <;> simp [Matrix4.ofFrame, Matrix4.rotateBack_ofRotation, Vec3.unitY, Vec3.scale]
  have hunit : (-z).dot (-z) = 1 := by rw [Vec3.neg_dot_neg, h.z_unit]
  simp only [ofViewMatrix, heye, hforward, hup, Vec3.neg_neg, Vec3.normalize_of_unit hunit, ofFrame]

/-! ## Proper poses -/

/-- A pose that looks somewhere, and whose up vector is neither zero nor along
the direction of view. -/
structure Proper (p : Pose ℝ) : Prop where
  eye_ne_center : p.eye ≠ p.center
  up_not_parallel : ∀ k, p.up ≠ p.direction.scale k

theorem Proper.isFrame {p : Pose ℝ} (h : p.Proper) : IsFrame p.rightward p.backward := by
  have hdirection : -p.direction ≠ ⟨0, 0, 0⟩ := by
    intro hzero
    apply h.eye_ne_center
    simpa [direction, Vec3.ext_iff, sub_eq_zero] using hzero
  have hz : p.backward.dot p.backward = 1 := Vec3.dot_normalize_self hdirection
  have hside : p.up.cross p.backward ≠ ⟨0, 0, 0⟩ := by
    intro hzero
    have hbackward : p.backward = p.direction.scale (-(-p.direction).norm⁻¹) := by
      ext <;> simp [backward, Vec3.normalize_eq_scale, Vec3.scale]
    apply h.up_not_parallel (-(-p.direction).norm⁻¹ * p.up.dot p.backward)
    rw [← Vec3.scale_scale, ← hbackward]
    exact Vec3.eq_scale_of_cross_eq_zero hz hzero
  refine ⟨Vec3.dot_normalize_self hside, hz, ?_⟩
  change (p.up.cross p.backward).normalize.dot p.backward = 0
  rw [Vec3.dot_comm, Vec3.dot_normalize, Vec3.dot_comm, Vec3.dot_cross_right, zero_mul]

theorem Proper.isRigid_viewMatrix {p : Pose ℝ} (h : p.Proper) : p.viewMatrix.IsRigid := by
  rw [viewMatrix_eq]
  exact Matrix4.ofFrame_isRigid h.isFrame p.eye

/-- The pose that is recovered from the view matrix of a proper pose. -/
theorem Proper.ofViewMatrix_viewMatrix {p : Pose ℝ} (h : p.Proper) :
    ofViewMatrix p.viewMatrix = ofFrame p.rightward p.backward p.eye := by
  rw [viewMatrix_eq, ofViewMatrix_ofFrame h.isFrame]

theorem proper_of_direction_eq {p : Pose ℝ} {k : ℝ} (h : IsFrame x z) (hk : k ≠ 0)
    (hdirection : p.direction = z.scale k) (hup : p.up = z.cross x) : p.Proper := by
  constructor
  · intro heye
    have hzero : p.direction.dot p.direction = 0 := by simp [direction, heye, Vec3.dot]
    rw [hdirection, Vec3.dot_scale, Vec3.dot_comm, Vec3.dot_scale, h.z_unit] at hzero
    simp [hk] at hzero
  · intro l hparallel
    have hzero : p.up.dot p.up = 0 := by
      rw [hparallel, Vec3.dot_scale, ← hparallel, hdirection, Vec3.dot_scale, hup,
        Vec3.dot_cross_left, zero_mul, zero_mul]
    rw [hup, h.y_unit] at hzero
    exact one_ne_zero hzero

theorem proper_ofFrame (h : IsFrame x z) (eye : Vec3 ℝ) : (ofFrame x z eye).Proper := by
  have hdirection : (ofFrame x z eye).direction = z.scale (-1) := by
    ext <;> simp [Vec3.scale]
  exact proper_of_direction_eq h (by norm_num) hdirection rfl

/-- A camera above the ground that looks along it. -/
def alongGround : Pose ℝ := ⟨⟨0, -10, 5⟩, ⟨0, 0, 5⟩, Vec3.unitZ⟩

theorem proper_alongGround : alongGround.Proper := by
  constructor
  · simp [alongGround]
  · intro k
    simp [alongGround, direction, Vec3.unitZ, Vec3.scale]

/-- A camera that looks up across all axes, held at a slant. -/
def tilted : Pose ℝ := ⟨⟨1, 2, 3⟩, ⟨3, 3, 5⟩, ⟨5, 7, -4⟩⟩

theorem direction_tilted : tilted.direction = ⟨2, 1, 2⟩ := by
  ext <;> norm_num [tilted, direction]

theorem proper_tilted : tilted.Proper := by
  constructor
  · simp [tilted]
  · intro k hparallel
    rw [direction_tilted] at hparallel
    have hx : 5 = 2 * k := congrArg Vec3.x hparallel
    have hy : 7 = 1 * k := congrArg Vec3.y hparallel
    linarith

end Pose

namespace Matrix4.IsRigid

open Pose (ofViewMatrix)

variable {m : Matrix4 ℝ}

theorem proper_ofViewMatrix (h : m.IsRigid) : (ofViewMatrix m).Proper := by
  obtain ⟨x, z, eye, hframe, rfl⟩ := isRigid_iff.mp h
  rw [Pose.ofViewMatrix_ofFrame hframe]
  exact Pose.proper_ofFrame hframe eye

theorem direction_unit (h : m.IsRigid) :
    (ofViewMatrix m).direction.dot (ofViewMatrix m).direction = 1 := by
  obtain ⟨x, z, eye, hframe, rfl⟩ := isRigid_iff.mp h
  rw [Pose.ofViewMatrix_ofFrame hframe, Pose.direction_ofFrame, Vec3.neg_dot_neg, hframe.z_unit]

end Matrix4.IsRigid

end Lookout

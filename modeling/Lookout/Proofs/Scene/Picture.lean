/-
Lookout.Proofs.Scene.Picture — where the points of space are in the picture of a
scene camera.

A transform takes the homogeneous coordinates of a point to clip coordinates, and
a division by the last of these gives its place in the picture. The matrices of
the view and of the perspective act one after the other (`mul_mulVec`): the first
gives the parts of a point along the axes of the camera (`ofFrame_mulVec`), the
second divides those across the line of sight by the depth and by the tangent of
half the field of view (`Projection.mulVec_of_matrix`).
-/
import Lookout.Proofs.Scene.Rigid
import Lookout.Scene.Camera

namespace Lookout

/-! ## Columns -/

section Columns

variable {α : Type} [Add α] [Mul α]

/-- The homogeneous coordinates of a point. -/
def Vec3.homogeneous [One α] (p : Vec3 α) : Row4 α := ⟨p.x, p.y, p.z, 1⟩

def Row4.dot (r v : Row4 α) : α := r.x * v.x + r.y * v.y + r.z * v.z + r.w * v.w

/-- A matrix times a column. -/
def Matrix4.mulVec (m : Matrix4 α) (v : Row4 α) : Row4 α :=
  ⟨m.first.dot v, m.second.dot v, m.third.dot v, m.fourth.dot v⟩

end Columns

namespace Matrix4

theorem rowMul_dot (r : Row4 ℝ) (m : Matrix4 ℝ) (v : Row4 ℝ) :
    (rowMul r m).dot v = r.dot (m.mulVec v) := by
  simp only [rowMul, Row4.dot, mulVec]
  ring

theorem mul_mulVec (m n : Matrix4 ℝ) (v : Row4 ℝ) : (m * n).mulVec v = m.mulVec (n.mulVec v) := by
  change (⟨(rowMul m.first n).dot v, (rowMul m.second n).dot v, (rowMul m.third n).dot v,
    (rowMul m.fourth n).dot v⟩ : Row4 ℝ) = _
  simp only [rowMul_dot]
  rfl

/-- The parts of a point along the axes of a frame at an eye. -/
theorem ofFrame_mulVec (x z eye p : Vec3 ℝ) :
    (ofFrame x z eye).mulVec p.homogeneous =
      ⟨x.dot (p - eye), (z.cross x).dot (p - eye), z.dot (p - eye), 1⟩ := by
  have hrow (u : Vec3 ℝ) :
      (⟨u.x, u.y, u.z, u.dot (-eye)⟩ : Row4 ℝ).dot p.homogeneous = u.dot (p - eye) := by
    simp only [Row4.dot, Vec3.homogeneous, Vec3.dot, Vec3.neg_x, Vec3.neg_y, Vec3.neg_z,
      Vec3.sub_x, Vec3.sub_y, Vec3.sub_z]
    ring
  have hlast : (⟨0, 0, 0, 1⟩ : Row4 ℝ).dot p.homogeneous = 1 := by
    simp [Row4.dot, Vec3.homogeneous]
  rw [mulVec, ofFrame, ofRotation, hrow, hrow, hrow, hlast]

/-! ## Pictures -/

/-- A transform to clip coordinates shows a point, which is in front of the
camera, at `(x, y)` in the coordinates of the picture, which go from `-1` to `1`. -/
structure Shows (m : Matrix4 ℝ) (p : Vec3 ℝ) (x y : ℝ) : Prop where
  in_front : 0 < (m.mulVec p.homogeneous).w
  x_eq : (m.mulVec p.homogeneous).x / (m.mulVec p.homogeneous).w = x
  y_eq : (m.mulVec p.homogeneous).y / (m.mulVec p.homogeneous).w = y

end Matrix4

namespace Projection

theorem halfFovy_eq (p : Projection ℝ) : p.halfFovy = p.fovyDegrees / 2 * (Real.pi / 180) := by
  change 1 / ((2 : ℕ) : ℝ) * p.fovyDegrees * (Real.pi / 180) = _
  push_cast
  ring

theorem halfFovy_mem {p : Projection ℝ} (h : 0 < p.fovyDegrees ∧ p.fovyDegrees < 180) :
    0 < p.halfFovy ∧ p.halfFovy < Real.pi / 2 := by
  have hpi := Real.pi_pos
  rw [halfFovy_eq]
  constructor
  · have := h.1
    positivity
  · nlinarith [h.2]

theorem tan_halfFovy_pos {p : Projection ℝ} (h : 0 < p.fovyDegrees ∧ p.fovyDegrees < 180) :
    0 < Real.tan p.halfFovy :=
  Real.tan_pos_of_pos_of_lt_pi_div_two (halfFovy_mem h).1 (halfFovy_mem h).2

theorem absolute_eq_abs (a : ℝ) : absolute a = |a| := by
  rw [absolute]
  split
  · next h => exact (abs_of_neg h).symm
  · next h => exact (abs_of_nonneg (not_lt.mp h)).symm

/-- The tolerance is absolute for numbers up to one, and relative to the larger
one otherwise. -/
theorem nearlyEqual_iff {a b : ℝ} :
    nearlyEqual a b = true ↔ |a - b| ≤ max 1 (max |a| |b|) * tolerance := by
  have htolerance : (0 : ℝ) ≤ tolerance := by
    rw [tolerance]
    positivity
  have hlarger : (if |a| < |b| then |b| else |a|) = max |a| |b| := by
    rcases lt_or_ge |a| |b| with h | h
    · rw [if_pos h, max_eq_right h.le]
    · rw [if_neg h.not_gt, max_eq_left h]
  have hfinite (c : ℝ) : Elementary.isFinite c = true := rfl
  by_cases hab : a = b
  · have hnonneg : 0 ≤ max 1 (max |b| |b|) * (tolerance : ℝ) := by positivity
    simpa [nearlyEqual, hab] using hnonneg
  · simp [nearlyEqual, hab, hfinite, absolute_eq_abs, hlarger, max_mul_of_nonneg _ _ htolerance]

/-- There is a perspective if the planes are apart, and the aspect is not zero, by
more than the tolerance. -/
theorem exists_matrix_iff (p : Projection ℝ) :
    (∃ m, p.matrix = .ok m) ↔
      max 1 (max |p.far| |p.near|) * tolerance < |p.far - p.near| ∧
        max 1 |p.aspect| * tolerance < |p.aspect| := by
  have hplanes : nearlyEqual p.far p.near = false ↔
      max 1 (max |p.far| |p.near|) * tolerance < |p.far - p.near| := by
    rw [Bool.eq_false_iff, Ne, nearlyEqual_iff, not_le]
  have haspect : nearlyEqual p.aspect 0 = false ↔
      max 1 |p.aspect| * tolerance < |p.aspect| := by
    rw [Bool.eq_false_iff, Ne, nearlyEqual_iff, not_le, sub_zero, abs_zero,
      max_eq_left (abs_nonneg p.aspect)]
  rw [← hplanes, ← haspect, matrix]
  cases nearlyEqual p.far p.near <;> cases nearlyEqual p.aspect 0 <;> simp

/-- What the perspective does across the line of sight, and the depth by which
all is divided. -/
theorem mulVec_of_matrix {p : Projection ℝ} {m : Matrix4 ℝ} (h : p.matrix = .ok m) (v : Row4 ℝ) :
    (m.mulVec v).x = v.x / Real.tan p.halfFovy / p.aspect ∧
      (m.mulVec v).y = v.y / Real.tan p.halfFovy ∧ (m.mulVec v).w = -v.z := by
  have hangle : p.fovyDegrees * (Real.pi / 180) / ((2 : ℕ) : ℝ) = p.halfFovy := by
    rw [halfFovy_eq]
    push_cast
    ring
  have htan : Elementary.tan (Elementary.radians p.fovyDegrees / ((2 : ℕ) : ℝ)) =
      Real.tan p.halfFovy := congrArg Real.tan hangle
  rw [matrix, htan] at h
  split at h
  · cases h
  split at h
  · cases h
  obtain rfl := Except.ok.inj h
  simp only [Matrix4.mulVec, Row4.dot]
  refine ⟨?_, ?_, ?_⟩ <;> ring

/-- A perspective after the view along a frame shows what is straight above the
line of sight straight above the middle, in proportion to its depth. -/
theorem shows_of_frame {p : Projection ℝ} {m : Matrix4 ℝ} {x z : Vec3 ℝ}
    (hmatrix : p.matrix = .ok m) (h : Vec3.IsFrame x z) (eye : Vec3 ℝ) {depth : ℝ}
    (hdepth : 0 < depth) (height : ℝ) :
    (m * .ofFrame x z eye).Shows (eye + z.scale (-depth) + (z.cross x).scale height)
      0 (height / Real.tan p.halfFovy / depth) := by
  have hpart : eye + z.scale (-depth) + (z.cross x).scale height - eye =
      x.scale 0 + (z.cross x).scale height + z.scale (-depth) := by
    ext <;> simp [Vec3.scale] <;> ring
  obtain ⟨hx, hy, hz⟩ := h.dot_sum 0 height (-depth)
  obtain ⟨hacross, habove, hw⟩ := mulVec_of_matrix hmatrix
    ⟨0, height, -depth, 1⟩
  constructor
  all_goals rw [Matrix4.mul_mulVec, Matrix4.ofFrame_mulVec, hpart, hx, hy, hz]
  · rw [hw]
    simpa using hdepth
  · simp [hacross]
  · rw [habove, hw, neg_neg]

end Projection

end Lookout

/-
Lookout.Proofs.Scene.Space — vectors in exact arithmetic.

The geometry of the scene is read over the real numbers here. A frame is given
by two of its axes, unit vectors at right angles; the third is their product,
so that every frame is right-handed. Each vector is the sum of its parts along
the axes of a frame (`IsFrame.expand`).
-/
import Lookout.Scene.Vector
import Mathlib.Analysis.SpecialFunctions.Trigonometric.Basic

namespace Lookout

/-- Exact numbers are all finite. A quotient by zero is zero, which is no
distance either: a request that would need it is turned down all the same. -/
noncomputable instance : Elementary ℝ where
  sqrt := Real.sqrt
  sin := Real.sin
  cos := Real.cos
  tan := Real.tan
  isFinite _ := true
  radiansPerDegree := Real.pi / 180

attribute [ext] Vec3

namespace Vec3

/-! ## Components -/

section Components

variable {α : Type}

@[simp] theorem add_x [Add α] (u v : Vec3 α) : (u + v).x = u.x + v.x := rfl
@[simp] theorem add_y [Add α] (u v : Vec3 α) : (u + v).y = u.y + v.y := rfl
@[simp] theorem add_z [Add α] (u v : Vec3 α) : (u + v).z = u.z + v.z := rfl

@[simp] theorem sub_x [Sub α] (u v : Vec3 α) : (u - v).x = u.x - v.x := rfl
@[simp] theorem sub_y [Sub α] (u v : Vec3 α) : (u - v).y = u.y - v.y := rfl
@[simp] theorem sub_z [Sub α] (u v : Vec3 α) : (u - v).z = u.z - v.z := rfl

@[simp] theorem neg_x [Neg α] (u : Vec3 α) : (-u).x = -u.x := rfl
@[simp] theorem neg_y [Neg α] (u : Vec3 α) : (-u).y = -u.y := rfl
@[simp] theorem neg_z [Neg α] (u : Vec3 α) : (-u).z = -u.z := rfl

end Components

/-! ## Sums and products -/

section Products

variable (u v w : Vec3 ℝ) (k : ℝ)

@[simp] theorem neg_neg : -(-u) = u := by
  ext <;> simp

theorem add_assoc : u + v + w = u + (v + w) := by
  ext <;> simp only [add_x, add_y, add_z] <;> ring

theorem dot_comm : u.dot v = v.dot u := by
  simp only [dot]
  ring

theorem neg_dot_neg : (-u).dot (-v) = u.dot v := by
  simp [dot]

theorem dot_add : u.dot (v + w) = u.dot v + u.dot w := by
  simp only [dot, add_x, add_y, add_z]
  ring

theorem dot_scale : u.dot (v.scale k) = u.dot v * k := by
  simp only [dot, scale]
  ring

theorem scale_one : u.scale 1 = u := by
  ext <;> simp only [scale, mul_one]

theorem scale_scale (l : ℝ) : (u.scale k).scale l = u.scale (k * l) := by
  ext <;> simp only [scale, mul_assoc]

theorem cross_scale : u.cross (v.scale k) = (u.cross v).scale k := by
  ext <;> simp only [cross, scale] <;> ring

theorem dot_cross_left : (u.cross v).dot u = 0 := by
  simp only [dot, cross]
  ring

theorem dot_cross_right : (u.cross v).dot v = 0 := by
  simp only [dot, cross]
  ring

theorem cross_cross : (u.cross v).cross w = v.scale (u.dot w) - u.scale (v.dot w) := by
  ext <;> simp only [cross, scale, dot, sub_x, sub_y, sub_z] <;> ring

theorem cross_cross_right : v.cross (u.cross v) = u.scale (v.dot v) - v.scale (u.dot v) := by
  ext <;> simp only [cross, scale, dot, sub_x, sub_y, sub_z] <;> ring

theorem dot_cross_cross : (u.cross v).dot (u.cross v) = u.dot u * v.dot v - u.dot v * u.dot v := by
  simp only [cross, dot]
  ring

/-- What a vector has along a product, in terms of the factors. -/
theorem cross_scale_dot_cross : (u.cross v).scale ((u.cross v).dot w) =
    w.scale (u.dot u * v.dot v - u.dot v * u.dot v) -
      (u.scale (v.dot v) - v.scale (u.dot v)).scale (u.dot w) -
      (v.scale (u.dot u) - u.scale (u.dot v)).scale (v.dot w) := by
  ext <;> simp only [cross, scale, dot, sub_x, sub_y, sub_z] <;> ring

end Products

/-! ## Length -/

theorem dot_self_nonneg (u : Vec3 ℝ) : 0 ≤ u.dot u :=
  add_nonneg (add_nonneg (mul_self_nonneg _) (mul_self_nonneg _)) (mul_self_nonneg _)

theorem dot_self_eq_zero_iff {u : Vec3 ℝ} : u.dot u = 0 ↔ u = ⟨0, 0, 0⟩ := by
  constructor
  · intro h
    simp only [dot] at h
    ext <;> nlinarith
  · rintro rfl
    simp [dot]

theorem norm_nonneg (u : Vec3 ℝ) : 0 ≤ u.norm := Real.sqrt_nonneg _

theorem norm_mul_self (u : Vec3 ℝ) : u.norm * u.norm = u.dot u :=
  Real.mul_self_sqrt u.dot_self_nonneg

theorem norm_eq_of_dot_self_eq {u v : Vec3 ℝ} (h : u.dot u = v.dot v) : u.norm = v.norm :=
  congrArg Real.sqrt h

theorem norm_eq_of_dot_self {u : Vec3 ℝ} {k : ℝ} (hk : 0 ≤ k) (h : u.dot u = k * k) :
    u.norm = k := by
  change Real.sqrt (u.dot u) = k
  rw [h, Real.sqrt_mul_self hk]

theorem norm_scale (u : Vec3 ℝ) (k : ℝ) : (u.scale k).norm = u.norm * |k| := by
  apply norm_eq_of_dot_self (mul_nonneg u.norm_nonneg (abs_nonneg k))
  calc (u.scale k).dot (u.scale k) = u.dot u * (k * k) := by
        rw [dot_scale, dot_comm, dot_scale, mul_assoc]
    _ = (u.norm * u.norm) * (|k| * |k|) := by rw [norm_mul_self, abs_mul_abs_self]
    _ = u.norm * |k| * (u.norm * |k|) := by ring

theorem norm_eq_zero_iff {u : Vec3 ℝ} : u.norm = 0 ↔ u = ⟨0, 0, 0⟩ := by
  rw [← dot_self_eq_zero_iff, ← norm_mul_self, mul_self_eq_zero]

theorem norm_of_unit {u : Vec3 ℝ} (h : u.dot u = 1) : u.norm = 1 :=
  norm_eq_of_dot_self zero_le_one (by rw [h, one_mul])

theorem normalize_of_unit {u : Vec3 ℝ} (h : u.dot u = 1) : u.normalize = u := by
  simp only [normalize, norm_of_unit h, div_one]

theorem normalize_eq_scale (u : Vec3 ℝ) : u.normalize = u.scale u.norm⁻¹ := rfl

theorem normalize_scale_of_unit {u : Vec3 ℝ} {k : ℝ} (h : u.dot u = 1) (hk : 0 < k) :
    (u.scale k).normalize = u := by
  have hnorm : (u.scale k).norm = k := by rw [norm_scale, norm_of_unit h, one_mul, abs_of_pos hk]
  rw [normalize_eq_scale, hnorm, scale_scale, mul_inv_cancel₀ hk.ne', scale_one]

theorem normalize_neg (u : Vec3 ℝ) : (-u).normalize = -u.normalize := by
  have hnorm : (-u).norm = u.norm := norm_eq_of_dot_self_eq (neg_dot_neg u u)
  ext <;> simp [normalize, hnorm, neg_div]

theorem dot_normalize (u v : Vec3 ℝ) : u.dot v.normalize = u.dot v * v.norm⁻¹ :=
  dot_scale u v _

theorem dot_normalize_self {u : Vec3 ℝ} (h : u ≠ ⟨0, 0, 0⟩) :
    u.normalize.dot u.normalize = 1 := by
  have hnorm : u.norm ≠ 0 := fun hzero => h (norm_eq_zero_iff.mp hzero)
  rw [dot_normalize, dot_comm, dot_normalize, ← norm_mul_self]
  field_simp

/-- Unit vectors in one direction are the same. -/
theorem eq_of_dot_eq_one {u v : Vec3 ℝ} (hu : u.dot u = 1) (hv : v.dot v = 1)
    (h : u.dot v = 1) : u = v := by
  have hdistance : (u - v).dot (u - v) = u.dot u - 2 * u.dot v + v.dot v := by
    simp only [dot, sub_x, sub_y, sub_z]
    ring
  have hzero : u - v = ⟨0, 0, 0⟩ := by
    rw [← dot_self_eq_zero_iff, hdistance, hu, hv, h]
    norm_num
  rw [Vec3.ext_iff] at hzero ⊢
  simpa [sub_eq_zero] using hzero

/-- A vector without a part across a unit vector is along it. -/
theorem eq_scale_of_cross_eq_zero {u v : Vec3 ℝ} (hv : v.dot v = 1)
    (h : u.cross v = ⟨0, 0, 0⟩) : u = v.scale (u.dot v) := by
  have hcross : v.scale (u.dot v) - u = ⟨0, 0, 0⟩ := by
    calc v.scale (u.dot v) - u = v.scale (u.dot v) - u.scale (v.dot v) := by
          rw [hv]
          ext <;> simp [scale]
      _ = (u.cross v).cross v := (cross_cross u v v).symm
      _ = ⟨0, 0, 0⟩ := by
          rw [h]
          simp [cross]
  rw [Vec3.ext_iff] at hcross ⊢
  simp only [sub_x, sub_y, sub_z, sub_eq_zero] at hcross
  exact ⟨hcross.1.symm, hcross.2.1.symm, hcross.2.2.symm⟩

/-! ## Frames -/

/-- Two axes of a right-handed frame, the third of which is `z.cross x`. -/
structure IsFrame (x z : Vec3 ℝ) : Prop where
  x_unit : x.dot x = 1
  z_unit : z.dot z = 1
  x_dot_z : x.dot z = 0

namespace IsFrame

variable {x z : Vec3 ℝ}

theorem z_dot_x (h : IsFrame x z) : z.dot x = 0 := by rw [dot_comm, h.x_dot_z]

theorem y_unit (h : IsFrame x z) : (z.cross x).dot (z.cross x) = 1 := by
  rw [dot_cross_cross, h.x_unit, h.z_unit, h.z_dot_x]
  norm_num

theorem y_cross_z (h : IsFrame x z) : (z.cross x).cross z = x := by
  rw [cross_cross, h.z_unit, h.x_dot_z]
  ext <;> simp [scale]

/-- The sum of parts along the axes has these parts. -/
theorem dot_sum (h : IsFrame x z) (a b c : ℝ) :
    x.dot (x.scale a + (z.cross x).scale b + z.scale c) = a ∧
      (z.cross x).dot (x.scale a + (z.cross x).scale b + z.scale c) = b ∧
      z.dot (x.scale a + (z.cross x).scale b + z.scale c) = c := by
  have hxy : x.dot (z.cross x) = 0 := by rw [dot_comm, dot_cross_right]
  have hzy : z.dot (z.cross x) = 0 := by rw [dot_comm, dot_cross_left]
  simp [dot_add, dot_scale, h.x_unit, h.y_unit, h.z_unit, h.x_dot_z, h.z_dot_x, hxy, hzy,
    dot_cross_left, dot_cross_right]

/-- Every vector is the sum of its parts along the axes. -/
theorem expand (h : IsFrame x z) (v : Vec3 ℝ) :
    x.scale (x.dot v) + (z.cross x).scale ((z.cross x).dot v) + z.scale (z.dot v) = v := by
  rw [cross_scale_dot_cross, h.x_unit, h.z_unit, h.z_dot_x]
  ext <;> simp only [scale, add_x, add_y, add_z, sub_x, sub_y, sub_z] <;> ring

end IsFrame

end Vec3

end Lookout

/-
Lookout.Proofs.Scene.RoundTrip — view matrices and poses encode each other.

A rigid view matrix is the one of the pose that is recovered from it
(`viewMatrix_ofViewMatrix`). The view matrix of a proper pose keeps the eye, the
direction of view apart from its length, and what the up vector has across that
direction, again apart from its length (`Proper.ofViewMatrix_viewMatrix_eq`).
What has been recovered once is therefore recovered unchanged.
-/
import Lookout.Proofs.Scene.Rigid

namespace Lookout

namespace Pose

/-! ## Matrix to pose and back -/

theorem viewMatrix_ofViewMatrix {m : Matrix4 ℝ} (h : m.IsRigid) :
    (ofViewMatrix m).viewMatrix = m := by
  obtain ⟨x, z, eye, hframe, rfl⟩ := Matrix4.isRigid_iff.mp h
  rw [ofViewMatrix_ofFrame hframe, viewMatrix_ofFrame hframe]

/-! ## Pose to matrix and back -/

/-- What the up vector has across the direction of view, with length one. -/
noncomputable def upward (p : Pose ℝ) : Vec3 ℝ :=
  (p.up - p.direction.normalize.scale (p.up.dot p.direction.normalize)).normalize

theorem backward_eq_neg (p : Pose ℝ) : p.backward = -p.direction.normalize :=
  Vec3.normalize_neg p.direction

/-- The up axis of a view is the up vector without its part along the direction. -/
theorem upward_eq_cross {p : Pose ℝ} (h : p.backward.dot p.backward = 1) :
    p.upward = p.backward.cross p.rightward := by
  have hpart : p.up - p.direction.normalize.scale (p.up.dot p.direction.normalize) =
      p.backward.cross (p.up.cross p.backward) := by
    rw [Vec3.cross_cross_right, h, backward_eq_neg]
    ext <;> simp [Vec3.scale, Vec3.dot] <;> ring
  have hnorm : (p.backward.cross (p.up.cross p.backward)).norm = (p.up.cross p.backward).norm := by
    apply Vec3.norm_eq_of_dot_self_eq
    rw [Vec3.dot_cross_cross, h, Vec3.dot_comm p.backward, Vec3.dot_cross_right]
    ring
  calc p.upward = (p.backward.cross (p.up.cross p.backward)).normalize := by rw [upward, hpart]
    _ = (p.backward.cross (p.up.cross p.backward)).scale (p.up.cross p.backward).norm⁻¹ := by
      rw [Vec3.normalize_eq_scale, hnorm]
    _ = p.backward.cross p.rightward := by
      rw [← Vec3.cross_scale]
      rfl

/-- What a view matrix keeps of a proper pose. -/
theorem Proper.ofViewMatrix_viewMatrix_eq {p : Pose ℝ} (h : p.Proper) :
    ofViewMatrix p.viewMatrix = ⟨p.eye, p.eye + p.direction.normalize, p.upward⟩ := by
  rw [h.ofViewMatrix_viewMatrix, upward_eq_cross h.isFrame.z_unit, ofFrame, backward_eq_neg,
    Vec3.neg_neg]

/-- The axes and the shift of a view matrix. -/
theorem viewMatrix_eq_ofRotation (p : Pose ℝ) :
    let z := (p.eye - p.center).normalize
    let x := (p.up.cross z).normalize
    p.viewMatrix = .ofRotation x (z.cross x) z
      (-⟨x.dot p.eye, (z.cross x).dot p.eye, z.dot p.eye⟩) := by
  intro z x
  have hback : -p.direction = p.eye - p.center := by
    ext <;> simp [direction]
  have hdot (v : Vec3 ℝ) : v.dot (-p.eye) = -v.dot p.eye := by
    simp only [Vec3.dot, Vec3.neg_x, Vec3.neg_y, Vec3.neg_z]
    ring
  rw [viewMatrix_eq, rightward, backward, hback, Matrix4.ofFrame, hdot, hdot, hdot]
  rfl

theorem normalize_direction_tilted : tilted.direction.normalize = ⟨2 / 3, 1 / 3, 2 / 3⟩ := by
  have hlength : (⟨2, 1, 2⟩ : Vec3 ℝ).norm = 3 :=
    Vec3.norm_eq_of_dot_self (by norm_num) (by norm_num [Vec3.dot])
  rw [direction_tilted]
  simp only [Vec3.normalize, hlength]

theorem upward_tilted : tilted.upward = ⟨1 / 3, 2 / 3, -2 / 3⟩ := by
  have hacross : tilted.up - tilted.direction.normalize.scale
      (tilted.up.dot tilted.direction.normalize) = ⟨3, 6, -6⟩ := by
    rw [normalize_direction_tilted]
    ext <;> norm_num [tilted, Vec3.scale, Vec3.dot]
  have hlength : (⟨3, 6, -6⟩ : Vec3 ℝ).norm = 9 :=
    Vec3.norm_eq_of_dot_self (by norm_num) (by norm_num [Vec3.dot])
  rw [upward, hacross]
  ext <;> norm_num [Vec3.normalize, hlength]

/-- **View matrices and poses encode each other.** A rigid view matrix is the one
of its pose. A proper pose has a rigid view matrix, with its last axis against
the direction of view and its first at right angles to that and to up, and what
is recovered from it has the same eye, the direction with length one and the
part of up across it with length one. A second round trip changes nothing. -/
theorem viewMatrix_ofViewMatrix_inverse :
    (∀ m : Matrix4 ℝ, m.IsRigid → (ofViewMatrix m).viewMatrix = m) ∧
      ∀ p : Pose ℝ, p.Proper →
        let z := (p.eye - p.center).normalize
        let x := (p.up.cross z).normalize
        let q := ofViewMatrix p.viewMatrix
        p.viewMatrix = .ofRotation x (z.cross x) z
            (-⟨x.dot p.eye, (z.cross x).dot p.eye, z.dot p.eye⟩) ∧
          p.viewMatrix.IsRigid ∧
          q.eye = p.eye ∧ q.direction = p.direction.normalize ∧ q.up = p.upward ∧
          ofViewMatrix q.viewMatrix = q := by
  refine ⟨fun m h => viewMatrix_ofViewMatrix h, fun p h => ?_⟩
  intro z x q
  have hq : q = ⟨p.eye, p.eye + p.direction.normalize, p.upward⟩ := h.ofViewMatrix_viewMatrix_eq
  refine ⟨p.viewMatrix_eq_ofRotation, h.isRigid_viewMatrix, ?_, ?_, ?_, ?_⟩
  · rw [hq]
  · rw [hq]
    ext <;> simp [direction]
  · rw [hq]
  · rw [viewMatrix_ofViewMatrix h.isRigid_viewMatrix]

/-- The eye, the direction and the up vector of a slanted camera after a round trip. -/
theorem viewMatrix_ofViewMatrix_tilted :
    tilted.Proper ∧ tilted.viewMatrix.IsRigid ∧
      (ofViewMatrix tilted.viewMatrix).viewMatrix = tilted.viewMatrix ∧
      (ofViewMatrix tilted.viewMatrix).eye = ⟨1, 2, 3⟩ ∧
      (ofViewMatrix tilted.viewMatrix).direction = ⟨2 / 3, 1 / 3, 2 / 3⟩ ∧
      (ofViewMatrix tilted.viewMatrix).up = ⟨1 / 3, 2 / 3, -2 / 3⟩ := by
  obtain ⟨hmatrix, hpose⟩ := viewMatrix_ofViewMatrix_inverse
  obtain ⟨-, hrigid, heye, hdirection, hup, -⟩ := hpose tilted proper_tilted
  exact ⟨proper_tilted, hrigid, hmatrix _ hrigid, heye,
    hdirection.trans normalize_direction_tilted, hup.trans upward_tilted⟩

end Pose

end Lookout

/-
Lookout.Proofs.Scene.Framing — a centre request fits a circle into the picture.

The distance is measured by products with an axis that depends on the direction
of view. It cancels: along every axis across the direction the distance is the
radius over the tangent of half the field of view, against the direction
(`distanceAlong_eq`). The camera therefore keeps its frame and stands where the
circle fits (`Along.centerTo_eq`), which the next request can only repeat for its
own circle. The matrix of the perspective divides by the same tangent, so the
ends of the upright diameter come to lie on the edges of the picture
(`Along.shows_standing`).
-/
import Lookout.Proofs.Scene.Home
import Lookout.Proofs.Scene.Picture
import Lookout.Proofs.Scene.RoundTrip

namespace Lookout

open Vec3 (IsFrame)

/-! ## Fitting distances -/

namespace Navigator

/-- The direction of the edge of the field of view on one side. -/
noncomputable def edge (side direction : Vec3 ℝ) (halfFovy : ℝ) : Vec3 ℝ :=
  direction.scale (Real.cos halfFovy) + side.scale (Real.sin halfFovy)

/-- The signed distance from which a circle fits, measured along any axis. -/
noncomputable def distanceAlong (side direction : Vec3 ℝ) (halfFovy radius : ℝ) : ℝ × ℝ :=
  let acrossRadius := (edge side direction halfFovy).cross (side.scale radius)
  let acrossDirection := (edge side direction halfFovy).cross direction
  (if 0 < acrossRadius.dot acrossDirection then 1 else -1, acrossRadius.norm / acrossDirection.norm)

theorem fittingDistance_eq (direction : Vec3 ℝ) (halfFovy radius : ℝ) :
    fittingDistance direction halfFovy radius =
      distanceAlong (sideways direction) direction halfFovy radius := rfl

section Edge

variable (side direction : Vec3 ℝ) (halfFovy : ℝ)

theorem edge_cross_side (radius : ℝ) : (edge side direction halfFovy).cross (side.scale radius) =
    (side.cross direction).scale (-(radius * Real.cos halfFovy)) := by
  ext <;> simp only [edge, Vec3.cross, Vec3.scale, Vec3.add_x, Vec3.add_y, Vec3.add_z] <;> ring

theorem edge_cross_direction : (edge side direction halfFovy).cross direction =
    (side.cross direction).scale (Real.sin halfFovy) := by
  ext <;> simp only [edge, Vec3.cross, Vec3.scale, Vec3.add_x, Vec3.add_y, Vec3.add_z] <;> ring

end Edge

/-- The axis has no part in the distance, nor has the direction. -/
theorem distanceAlong_eq {side direction : Vec3 ℝ} {halfFovy radius : ℝ}
    (hside : side.cross direction ≠ ⟨0, 0, 0⟩) (hfovy : 0 < halfFovy ∧ halfFovy < Real.pi / 2)
    (hradius : 0 < radius) :
    distanceAlong side direction halfFovy radius = (-1, radius / Real.tan halfFovy) := by
  have hsin : 0 < Real.sin halfFovy :=
    Real.sin_pos_of_pos_of_lt_pi hfovy.1 (by linarith [Real.pi_pos])
  have hcos : 0 < Real.cos halfFovy := Real.cos_pos_of_mem_Ioo ⟨by linarith, hfovy.2⟩
  have hnorm : (side.cross direction).norm ≠ 0 := fun h => hside (Vec3.norm_eq_zero_iff.mp h)
  have hproduct : ((side.cross direction).scale (-(radius * Real.cos halfFovy))).dot
      ((side.cross direction).scale (Real.sin halfFovy)) ≤ 0 := by
    rw [Vec3.dot_scale, Vec3.dot_comm, Vec3.dot_scale]
    have := mul_nonneg (side.cross direction).dot_self_nonneg
      (mul_pos (mul_pos hradius hcos) hsin).le
    linarith
  have hlengths : ((side.cross direction).scale (-(radius * Real.cos halfFovy))).norm /
      ((side.cross direction).scale (Real.sin halfFovy)).norm = radius / Real.tan halfFovy := by
    rw [Vec3.norm_scale, Vec3.norm_scale, abs_neg, abs_of_pos hsin,
      abs_of_pos (mul_pos hradius hcos), mul_div_mul_left _ _ hnorm, Real.tan_eq_sin_div_cos,
      div_div_eq_mul_div]
  rw [distanceAlong, edge_cross_side, edge_cross_direction, if_neg hproduct.not_gt, hlengths]

/-- No direction runs along the axis that is taken for it. -/
theorem sideways_cross_ne_zero {direction : Vec3 ℝ} (h : direction.dot direction = 1) :
    (sideways direction).cross direction ≠ ⟨0, 0, 0⟩ := by
  have hvertical : direction.dot Vec3.unitZ = direction.z := by simp [Vec3.dot, Vec3.unitZ]
  rw [sideways, hvertical]
  by_cases hz : direction.z = 0
  · have hground : direction.x * direction.x + direction.y * direction.y = 1 := by
      rw [← h, Vec3.dot, hz]
      ring
    have hunit : (⟨-direction.y, direction.x, 0⟩ : Vec3 ℝ).dot
        ⟨-direction.y, direction.x, 0⟩ = 1 := by
      rw [← hground, Vec3.dot]
      ring
    rw [if_pos (beq_iff_eq.mpr hz), Vec3.normalize_of_unit hunit]
    intro hcross
    have hzero : -direction.y * direction.y - direction.x * direction.x = 0 :=
      congrArg Vec3.z hcross
    linarith
  · have hunit : (-Vec3.unitX : Vec3 ℝ).dot (-Vec3.unitX) = 1 := by simp [Vec3.dot, Vec3.unitX]
    rw [if_neg (by simpa using hz), Vec3.normalize_of_unit hunit]
    intro hcross
    apply hz
    simpa [Vec3.cross, Vec3.unitX] using congrArg Vec3.y hcross

end Navigator

/-! ## Standing at a distance -/

namespace Pose

/-- A pose against the last axis of a frame, with its up axis, has the view matrix
of this frame. -/
theorem viewMatrix_of_direction_eq {p : Pose ℝ} {x z : Vec3 ℝ} {k : ℝ} (h : IsFrame x z)
    (hk : 0 < k) (hdirection : -p.direction = z.scale k) (hup : p.up = z.cross x) :
    p.viewMatrix = .ofFrame x z p.eye := by
  have hback : p.backward = z := by
    rw [backward, hdirection, Vec3.normalize_scale_of_unit h.z_unit hk]
  have hright : p.rightward = x := by
    rw [rightward, hback, hup, h.y_cross_z, Vec3.normalize_of_unit h.x_unit]
  rw [viewMatrix_eq, hback, hright]

end Pose

namespace Navigator

/-- A camera with a field of view, at an eye and along the axes of a frame. -/
structure Along (n : Navigator (SceneCamera ℝ) ℝ) (x z eye : Vec3 ℝ) : Prop where
  isFrame : IsFrame x z
  viewMatrix_eq : n.camera.viewMatrix = .ofFrame x z eye
  fovy : 0 < n.camera.projection.fovyDegrees ∧ n.camera.projection.fovyDegrees < 180

/-- Where a circle around a position fits the picture, seen against an axis. -/
noncomputable def standpoint (n : Navigator (SceneCamera ℝ) ℝ) (z position : Vec3 ℝ)
    (radius : ℝ) : Vec3 ℝ :=
  position + z.scale (radius / Real.tan n.camera.projection.halfFovy)

/-- The navigator whose camera stands there, and is at home there. -/
noncomputable def standing (n : Navigator (SceneCamera ℝ) ℝ) (x z position : Vec3 ℝ)
    (radius : ℝ) : Navigator (SceneCamera ℝ) ℝ :=
  { n with camera := ⟨.ofFrame x z (n.standpoint z position radius),
      ⟨n.standpoint z position radius, position, z.cross x⟩, n.camera.projection⟩ }

namespace Along

variable {n : Navigator (SceneCamera ℝ) ℝ} {x z eye : Vec3 ℝ} {radius : ℝ}

theorem pose_eq (h : n.Along x z eye) : n.pose = .ofFrame x z eye := by
  rw [← Pose.ofViewMatrix_ofFrame h.isFrame, ← h.viewMatrix_eq]
  rfl

theorem standing (h : n.Along x z eye) (position : Vec3 ℝ) (radius : ℝ) :
    (n.standing x z position radius).Along x z (n.standpoint z position radius) :=
  ⟨h.isFrame, rfl, h.fovy⟩

theorem distance_pos (h : n.Along x z eye) (hradius : 0 < radius) :
    0 < radius / Real.tan n.camera.projection.halfFovy :=
  div_pos hradius (Projection.tan_halfFovy_pos h.fovy)

theorem direction_unit (h : n.Along x z eye) : n.pose.direction.dot n.pose.direction = 1 := by
  rw [h.pose_eq, Pose.direction_ofFrame, Vec3.neg_dot_neg, h.isFrame.z_unit]

theorem fitting_eq (h : n.Along x z eye) (hradius : 0 < radius) :
    Camera.fitting n.camera radius = (-1, radius / Real.tan n.camera.projection.halfFovy) :=
  (fittingDistance_eq _ _ _).trans
    (distanceAlong_eq (sideways_cross_ne_zero h.direction_unit)
      (Projection.halfFovy_mem h.fovy) hradius)

theorem fits (h : n.Along x z eye) (hradius : 0 < radius) : Camera.Fits n.camera radius := by
  rw [Camera.Fits, h.fitting_eq hradius]
  exact ⟨hradius, rfl, h.distance_pos hradius⟩

/-- A centre request is met, and the camera keeps its frame. -/
theorem centerTo_eq (h : n.Along x z eye) (position : Vec3 ℝ) (hradius : 0 < radius) :
    n.centerTo position radius = n.standing x z position radius := by
  have hframing : Camera.framing n.camera position radius =
      ⟨n.standpoint z position radius, position, z.cross x⟩ := by
    have hpose : Camera.pose n.camera = .ofFrame x z eye := h.pose_eq
    rw [Camera.framing, h.fitting_eq hradius, hpose, Pose.direction_ofFrame, Pose.up_ofFrame,
      standpoint]
    simp [Vec3.scale]
  have hview : (Camera.framing n.camera position radius).viewMatrix =
      .ofFrame x z (n.standpoint z position radius) := by
    rw [hframing]
    apply Pose.viewMatrix_of_direction_eq h.isFrame (h.distance_pos hradius) _ rfl
    ext <;> simp [Pose.direction, standpoint]
  rw [Navigator.centerTo_eq, SceneCamera.meet_fit, if_pos (h.fits hradius), hview, hframing]
  rfl

end Along

/-! ## Pictures of circles -/

/-- What becomes of a camera that has to fit a circle: it looks the same way,
from where the radius is seen under half the field of view, and is at home there.
The middle of the circle is shown in the middle of the picture, and the ends of
its upright diameter on the edges. -/
structure Frames (n after : Navigator (SceneCamera ℝ) ℝ) (position : Vec3 ℝ) (radius : ℝ) :
    Prop where
  direction : after.pose.direction = n.pose.direction
  direction_unit : n.pose.direction.dot n.pose.direction = 1
  up : after.pose.up = n.pose.up
  eye : after.pose.eye = position - n.pose.direction.scale
    (radius / Real.tan (n.camera.projection.fovyDegrees / 2 * (Real.pi / 180)))
  home : after.camera.home = ⟨after.pose.eye, position, n.pose.up⟩
  shows : ∀ perspective, n.camera.projection.matrix = .ok perspective →
    ∃ m, after.camera.viewProjectionMatrix = .ok m ∧ m.Shows position 0 0 ∧
      m.Shows (position + n.pose.up.scale radius) 0 1 ∧
      m.Shows (position - n.pose.up.scale radius) 0 (-1)

namespace Along

variable {n : Navigator (SceneCamera ℝ) ℝ} {x z eye : Vec3 ℝ} {radius : ℝ}

/-- The upright diameter of the circle fills the picture. -/
theorem shows_standing (h : n.Along x z eye) (position : Vec3 ℝ) (hradius : 0 < radius)
    {perspective : Matrix4 ℝ} (hmatrix : n.camera.projection.matrix = .ok perspective)
    (part : ℝ) :
    (perspective * (n.standing x z position radius).camera.viewMatrix).Shows
      (position + n.pose.up.scale (radius * part)) 0 part := by
  have hdistance := h.distance_pos hradius
  have hpoint : position + n.pose.up.scale (radius * part) =
      n.standpoint z position radius +
          z.scale (-(radius / Real.tan n.camera.projection.halfFovy)) +
        (z.cross x).scale (radius * part) := by
    rw [h.pose_eq, Pose.up_ofFrame, standpoint]
    ext <;> simp [Vec3.scale]
  have hpart : radius * part / Real.tan n.camera.projection.halfFovy /
      (radius / Real.tan n.camera.projection.halfFovy) = part := by
    rw [mul_div_right_comm, mul_div_cancel_left₀ _ hdistance.ne']
  have hshows := Projection.shows_of_frame hmatrix h.isFrame (n.standpoint z position radius)
    hdistance (radius * part)
  rwa [← hpoint, hpart] at hshows

theorem frames (h : n.Along x z eye) (position : Vec3 ℝ) (hradius : 0 < radius) :
    n.Frames (n.standing x z position radius) position radius := by
  have hafter := (h.standing position radius).pose_eq
  refine ⟨?_, h.direction_unit, ?_, ?_, ?_, ?_⟩
  · rw [h.pose_eq, hafter, Pose.direction_ofFrame, Pose.direction_ofFrame]
  · rw [h.pose_eq, hafter, Pose.up_ofFrame, Pose.up_ofFrame]
  · rw [h.pose_eq, hafter, Pose.direction_ofFrame, Pose.eye_ofFrame, standpoint,
      Projection.halfFovy_eq]
    ext <;> simp [Vec3.scale]
  · rw [h.pose_eq, hafter, Pose.eye_ofFrame, Pose.up_ofFrame]
    rfl
  · intro perspective hmatrix
    have hclip : (n.standing x z position radius).camera.viewProjectionMatrix =
        .ok (perspective * (n.standing x z position radius).camera.viewMatrix) := by
      change n.camera.projection.matrix.map _ = _
      rw [hmatrix]
      rfl
    have hshows := h.shows_standing position hradius hmatrix
    have hmiddle : position + n.pose.up.scale (radius * 0) = position := by
      ext <;> simp [Vec3.scale]
    have hbottom : position + n.pose.up.scale (radius * -1) =
        position - n.pose.up.scale radius := by
      ext <;> simp [Vec3.scale] <;> ring
    refine ⟨_, hclip, ?_, ?_, ?_⟩
    · simpa only [hmiddle] using hshows 0
    · simpa only [mul_one] using hshows 1
    · simpa only [hbottom] using hshows (-1)

end Along

end Navigator

/-! ## Sequences of requests -/

/-- A request to centre a circle. -/
def Request.Centres : Request ℝ → Prop
  | .centerTo _ radius _ => 0 < radius
  | _ => False

namespace Navigator

variable {n : Navigator (SceneCamera ℝ) ℝ}

theorem exists_perform_eq_centerTo {r : Request ℝ} (h : r.Centres) :
    ∃ position radius, 0 < radius ∧
      ∀ n : Navigator (SceneCamera ℝ) ℝ, n.perform r = n.centerTo position radius := by
  cases r with
  | centerTo position radius applyZoom => exact ⟨position, radius, h, fun _ => rfl⟩
  | _ => exact h.elim

namespace Along

variable {x z eye : Vec3 ℝ} {r last : Request ℝ}

theorem perform (h : n.Along x z eye) (hr : r.Centres) : ∃ eye', (n.perform r).Along x z eye' := by
  obtain ⟨position, radius, hradius, hperform⟩ := exists_perform_eq_centerTo hr
  rw [hperform, h.centerTo_eq position hradius]
  exact ⟨_, h.standing position radius⟩

/-- Of two requests the second one counts. -/
theorem perform_perform (h : n.Along x z eye) (hr : r.Centres) (hlast : last.Centres) :
    (n.perform r).perform last = n.perform last := by
  obtain ⟨position, radius, hradius, hperform⟩ := exists_perform_eq_centerTo hr
  obtain ⟨position', radius', hradius', hperform'⟩ := exists_perform_eq_centerTo hlast
  have hfirst := h.standing position radius
  rw [hperform, hperform', hperform', h.centerTo_eq position hradius,
    hfirst.centerTo_eq position' hradius', h.centerTo_eq position' hradius']
  rfl

theorem performAll_eq (h : n.Along x z eye) {earlier : List (Request ℝ)}
    (hearlier : ∀ r ∈ earlier, r.Centres) (hlast : last.Centres) :
    n.performAll (earlier ++ [last]) = n.perform last := by
  induction earlier generalizing n eye with
  | nil => rfl
  | cons first rest ih =>
    have hrest := List.forall_mem_cons.mp hearlier
    obtain ⟨eye', hfirst⟩ := h.perform hrest.1
    calc n.performAll (first :: rest ++ [last])
        = (n.perform first).performAll (rest ++ [last]) := rfl
      _ = (n.perform first).perform last := ih hfirst hrest.2
      _ = n.perform last := h.perform_perform hrest.1 hlast

end Along

theorem exists_along (hrigid : n.camera.viewMatrix.IsRigid)
    (hfovy : 0 < n.camera.projection.fovyDegrees ∧ n.camera.projection.fovyDegrees < 180) :
    ∃ x z eye, n.Along x z eye := by
  obtain ⟨x, z, eye, hframe, hview⟩ := Matrix4.isRigid_iff.mp hrigid
  exact ⟨x, z, eye, hframe, hview, hfovy⟩

/-- A centre request is met by every rigid camera that has a field of view, and
fits its circle into the picture. Whatever axis across the direction of view the
distance is measured along, it is the same, and of several such requests the
last one counts. -/
theorem perform_centerTo_frames (hrigid : n.camera.viewMatrix.IsRigid)
    (hfovy : 0 < n.camera.projection.fovyDegrees ∧ n.camera.projection.fovyDegrees < 180)
    (position : Vec3 ℝ) {radius : ℝ} (hradius : 0 < radius) (applyZoom : Bool) :
    let last : Request ℝ := .centerTo position radius applyZoom
    Camera.Fits n.camera radius ∧ n.Frames (n.perform last) position radius ∧
      (∀ side : Vec3 ℝ, side.cross n.pose.direction ≠ ⟨0, 0, 0⟩ →
        distanceAlong side n.pose.direction n.camera.projection.halfFovy radius =
          Camera.fitting n.camera radius) ∧
      ∀ earlier : List (Request ℝ), (∀ r ∈ earlier, r.Centres) →
        n.performAll (earlier ++ [last]) = n.perform last := by
  intro last
  obtain ⟨x, z, eye, h⟩ := exists_along hrigid hfovy
  have hlast : n.perform last = n.standing x z position radius := h.centerTo_eq position hradius
  refine ⟨h.fits hradius, ?_, ?_, ?_⟩
  · rw [hlast]
    exact h.frames position hradius
  · intro side hside
    rw [h.fitting_eq hradius]
    exact distanceAlong_eq hside (Projection.halfFovy_mem hfovy) hradius
  · intro earlier hearlier
    exact h.performAll_eq hearlier hradius

/-- A slanted camera with a right angle for its field of view. -/
theorem perform_centerTo_frames_tilted :
    let n : Navigator (SceneCamera ℝ) ℝ :=
      .ofViewport (.atPose Pose.tilted ⟨90, 2, 1, 100⟩) ⟨0, 0, 4, 3⟩
    let last : Request ℝ := .centerTo ⟨4, 5, 6⟩ 3 true
    n.camera.viewMatrix.IsRigid ∧ ((0 : ℝ) < 90 ∧ (90 : ℝ) < 180) ∧ (0 : ℝ) < 3 ∧
      (n.perform last).pose.eye = ⟨2, 4, 4⟩ ∧
      (∃ m, (n.perform last).camera.viewProjectionMatrix = .ok m ∧ m.Shows ⟨4, 5, 6⟩ 0 0 ∧
        m.Shows ⟨5, 7, 4⟩ 0 1 ∧ m.Shows ⟨3, 3, 8⟩ 0 (-1)) ∧
      n.performAll ([.centerTo ⟨0, 0, 0⟩ 10 false] ++ [last]) = n.perform last := by
  intro n last
  have hrigid : n.camera.viewMatrix.IsRigid := Pose.proper_tilted.isRigid_viewMatrix
  have hpose : n.pose = ⟨Pose.tilted.eye,
      Pose.tilted.eye + Pose.tilted.direction.normalize, Pose.tilted.upward⟩ :=
    Pose.proper_tilted.ofViewMatrix_viewMatrix_eq
  have hfovy : (0 : ℝ) < 90 ∧ (90 : ℝ) < 180 := by norm_num
  have hradius : (0 : ℝ) < 3 := by norm_num
  have hearlier : ∀ r ∈ [Request.centerTo (⟨0, 0, 0⟩ : Vec3 ℝ) 10 false], r.Centres := by
    simp [Request.Centres]
  obtain ⟨-, hframes, -, hlast⟩ :=
    perform_centerTo_frames (n := n) hrigid hfovy ⟨4, 5, 6⟩ hradius true
  have hangle : Real.tan (90 / 2 * (Real.pi / 180)) = 1 := by
    rw [← Real.tan_pi_div_four]
    congr 1
    ring
  have hmatrix : ∃ perspective, n.camera.projection.matrix = .ok perspective := by
    apply (Projection.exists_matrix_iff _).mpr
    norm_num [n, ofViewport, SceneCamera.atPose, Projection.tolerance]
  obtain ⟨perspective, hperspective⟩ := hmatrix
  obtain ⟨m, hm, hmiddle, htop, hbottom⟩ := hframes.shows perspective hperspective
  have hdirection : n.pose.direction = ⟨2 / 3, 1 / 3, 2 / 3⟩ := by
    rw [hpose, Pose.normalize_direction_tilted]
    ext <;> simp [Pose.direction]
  have hup : n.pose.up = ⟨1 / 3, 2 / 3, -2 / 3⟩ := by rw [hpose, Pose.upward_tilted]
  have heye : (n.perform last).pose.eye = ⟨2, 4, 4⟩ := by
    rw [hframes.eye, hdirection]
    change (_ - (⟨2 / 3, 1 / 3, 2 / 3⟩ : Vec3 ℝ).scale
      (3 / Real.tan (90 / 2 * (Real.pi / 180)))) = _
    rw [hangle]
    ext <;> norm_num [Vec3.scale]
  have htop' : (⟨4, 5, 6⟩ : Vec3 ℝ) + n.pose.up.scale 3 = ⟨5, 7, 4⟩ := by
    rw [hup]
    ext <;> norm_num [Vec3.scale]
  have hbottom' : (⟨4, 5, 6⟩ : Vec3 ℝ) - n.pose.up.scale 3 = ⟨3, 3, 8⟩ := by
    rw [hup]
    ext <;> norm_num [Vec3.scale]
  rw [htop'] at htop
  rw [hbottom'] at hbottom
  exact ⟨hrigid, hfovy, hradius, heye, ⟨m, hm, hmiddle, htop, hbottom⟩, hlast _ hearlier⟩

end Navigator

end Lookout

/-
Lookout.Proofs.Scene.Session — a camera that starts well never degenerates.

A scene camera is sound if its view matrix is rigid and its home position
proper. A centre request keeps the direction of view and puts the eye on one
side of the position (`centerTo_cases`), so its home position is proper again;
a viewport request gives a proper pose. Every event therefore keeps a camera
sound (`Sound.handle`), and so does every run of events (`Sound.run`).
-/
import Lookout.Proofs.Scene.Aim
import Lookout.Scene.Session

namespace Lookout

open Vec3 (IsFrame)

/-! ## Centre requests -/

namespace Navigator

theorem fittingDistance_sign_ne_zero (direction : Vec3 ℝ) (halfFovy radius : ℝ) :
    (fittingDistance direction halfFovy radius).1 ≠ 0 := by
  simp only [fittingDistance]
  split <;> norm_num

/-- A centre request changes nothing, or it goes home to an eye that looks at
the position from some way along the direction of view, with the same up vector. -/
theorem centerTo_cases {C : Type} [Camera C ℝ] (n : Navigator C ℝ) (position : Vec3 ℝ)
    (radius : ℝ) :
    n.centerTo position radius = n ∨ ∃ k ≠ 0, n.centerTo position radius =
      { n with camera := Camera.home (Camera.setHome n.camera
          ⟨position + n.pose.direction.scale k, position, n.pose.up⟩) } := by
  have hsign := fittingDistance_sign_ne_zero n.pose.direction
    (Camera.projection n.camera).halfFovy radius
  simp only [centerTo]
  split
  · next haccepted =>
    obtain ⟨-, -, hdistance⟩ := haccepted
    refine .inr ⟨_, mul_ne_zero hsign hdistance.ne', ?_⟩
    rw [Vec3.scale_scale]
  · exact .inl rfl

/-- What the size of the fitting distance is divided by: it is zero where the
edge of the field of view runs along the direction. -/
noncomputable def fittingDivisor (direction : Vec3 ℝ) (halfFovy : ℝ) : ℝ :=
  ((direction.scale (Real.cos halfFovy) + (sideways direction).scale (Real.sin halfFovy)).cross
    direction).norm

/-- A division by zero gives no distance, as a quotient that is not finite gives none. -/
theorem centerTo_of_fittingDivisor_eq_zero {C : Type} [Camera C ℝ] {n : Navigator C ℝ}
    (h : fittingDivisor n.pose.direction (Camera.projection n.camera).halfFovy = 0)
    (position : Vec3 ℝ) (radius : ℝ) : n.centerTo position radius = n := by
  have hdistance : (fittingDistance n.pose.direction (Camera.projection n.camera).halfFovy
      radius).2 = 0 := div_eq_zero_iff.mpr (.inr h)
  simp only [centerTo, hdistance]
  exact if_neg fun haccepted => lt_irrefl _ haccepted.2.2

/-- Without a field of view its edge runs along the direction. -/
theorem fittingDivisor_zero (direction : Vec3 ℝ) : fittingDivisor direction 0 = 0 := by
  rw [fittingDivisor, Vec3.norm_eq_zero_iff]
  ext <;> simp [Vec3.cross, Vec3.scale] <;> ring

end Navigator

/-- Looking at a position from along the direction of a rigid camera. -/
theorem Matrix4.IsRigid.proper_along {m : Matrix4 ℝ} (h : m.IsRigid) (position : Vec3 ℝ) {k : ℝ}
    (hk : k ≠ 0) :
    (⟨position + (Pose.ofViewMatrix m).direction.scale k, position,
      (Pose.ofViewMatrix m).up⟩ : Pose ℝ).Proper := by
  obtain ⟨x, z, eye, hframe, rfl⟩ := isRigid_iff.mp h
  rw [Pose.ofViewMatrix_ofFrame hframe]
  refine Pose.proper_of_direction_eq hframe hk ?_ rfl
  ext <;> simp [Pose.direction, Pose.ofFrame, Vec3.scale]

/-! ## Sound cameras -/

namespace SceneCamera

/-- The camera sees rigidly, and so it would at home. -/
structure Sound (c : SceneCamera ℝ) : Prop where
  viewMatrix : c.viewMatrix.IsRigid
  home : c.home.Proper

theorem sound_atPose {pose : Pose ℝ} (h : pose.Proper) (projection : Projection ℝ) :
    (atPose pose projection).Sound :=
  ⟨h.isRigid_viewMatrix, h⟩

namespace Sound

variable {n : Navigator (SceneCamera ℝ) ℝ}

theorem centerTo (h : n.camera.Sound) (position : Vec3 ℝ) (radius : ℝ) :
    (n.centerTo position radius).camera.Sound := by
  rcases n.centerTo_cases position radius with hsame | ⟨k, hk, hhome⟩
  · rwa [hsame]
  · have hproper := h.viewMatrix.proper_along position hk
    rw [hhome]
    exact ⟨hproper.isRigid_viewMatrix, hproper⟩

theorem aimAt (h : n.camera.Sound) (x y : ℝ) : (n.aimAt x y).camera.Sound :=
  ⟨Navigator.isRigid_aimAt (n := n) h.viewMatrix x y, h.home⟩

theorem perform (h : n.camera.Sound) (r : Request ℝ) : (n.perform r).camera.Sound := by
  cases r with
  | centerTo position radius applyZoom => exact h.centerTo position radius
  | setViewport zoom x y => exact h.aimAt x y
  | setViewportFrom x y z => exact h.aimAt x y
  | setViewportBoundary viewport => exact h.aimAt viewport.centerX viewport.centerY
  | changeCanvasSizeLeft change => exact h
  | setRotation rotation => exact h

end Sound

end SceneCamera

/-! ## Runs -/

/-- Home positions that are given are proper, and view matrices rigid. -/
def SceneEvent.Admissible : SceneEvent ℝ → Prop
  | .setHome pose => pose.Proper
  | .setViewMatrix m => m.IsRigid
  | _ => True

namespace SceneCamera.Sound

variable {n : Navigator (SceneCamera ℝ) ℝ}

/-- **No event makes a camera degenerate.** -/
theorem handle (h : n.camera.Sound) {event : SceneEvent ℝ} (hevent : event.Admissible) :
    (n.handle event).camera.Sound := by
  cases event with
  | request r => exact h.perform r
  | home => exact ⟨h.home.isRigid_viewMatrix, h.home⟩
  | setHome pose => exact ⟨h.viewMatrix, hevent⟩
  | setViewMatrix m => exact ⟨hevent, h.home⟩
  | resize canvas => exact ⟨h.viewMatrix, h.home⟩

theorem run (h : n.camera.Sound) {events : List (SceneEvent ℝ)}
    (hevents : ∀ event ∈ events, event.Admissible) : (n.run events).camera.Sound := by
  induction events generalizing n with
  | nil => exact h
  | cons event later ih =>
    have hlater := List.forall_mem_cons.mp hevents
    exact ih (h.handle hlater.1) hlater.2

end SceneCamera.Sound

namespace Navigator

/-- A camera that begins at a proper pose has a rigid view matrix and a proper
home position after every step of every run, and never takes up a position at a
distance that would have to be divided by zero. -/
theorem run_camera_isRigid_and_home_proper {pose : Pose ℝ} (hpose : pose.Proper)
    (projection : Projection ℝ) (viewport : Boundary ℝ) (events : List (SceneEvent ℝ))
    (hevents : ∀ event ∈ events, event.Admissible) :
    ∀ reached, reached <+: events →
      let n : Navigator (SceneCamera ℝ) ℝ :=
        (ofViewport (.atPose pose projection) viewport).run reached
      n.camera.viewMatrix.IsRigid ∧ n.camera.home.Proper ∧
        (fittingDivisor n.pose.direction (Camera.projection n.camera).halfFovy = 0 →
          ∀ position radius, n.centerTo position radius = n) := by
  intro reached hreached n
  have hsound : n.camera.Sound :=
    SceneCamera.Sound.run (SceneCamera.sound_atPose hpose projection)
      fun event hmem => hevents event (hreached.subset hmem)
  exact ⟨hsound.viewMatrix, hsound.home, centerTo_of_fittingDivisor_eq_zero⟩

/-- A camera along the ground that is sent home, turned into a bird's-eye view,
given another home and moved by a matrix; without a field of view it ignores
centre requests. -/
theorem run_camera_along_ground :
    let events : List (SceneEvent ℝ) :=
      [.request (.centerTo ⟨1, 2, 0⟩ 10 true), .request (.setViewport 100 7 (-3)),
        .setHome Pose.alongGround, .setViewMatrix Pose.alongGround.viewMatrix, .home]
    let start (fovyDegrees : ℝ) : Navigator (SceneCamera ℝ) ℝ :=
      ofViewport (.atPose Pose.alongGround ⟨fovyDegrees, 1, 1, 100⟩) ⟨0, 0, 4, 3⟩
    Pose.alongGround.Proper ∧ (∀ event ∈ events, event.Admissible) ∧
      ((start 60).run events).camera.viewMatrix.IsRigid ∧
      ((start 60).run events).camera.home.Proper ∧
      fittingDivisor (start 0).pose.direction (Camera.projection (start 0).camera).halfFovy = 0 ∧
      (start 0).centerTo ⟨1, 2, 0⟩ 10 = start 0 := by
  intro events start
  have hpose := Pose.proper_alongGround
  have hevents : ∀ event ∈ events, event.Admissible := by
    simp [events, SceneEvent.Admissible, hpose, hpose.isRigid_viewMatrix]
  obtain ⟨hrigid, hhome, -⟩ := run_camera_isRigid_and_home_proper hpose ⟨60, 1, 1, 100⟩
    ⟨0, 0, 4, 3⟩ events hevents events (List.prefix_refl events)
  obtain ⟨-, -, hcenter⟩ := run_camera_isRigid_and_home_proper hpose ⟨0, 1, 1, 100⟩
    ⟨0, 0, 4, 3⟩ [] nofun [] (List.prefix_refl [])
  have hhalf : (Camera.projection (start 0).camera).halfFovy = 0 := by
    change Elementary.radians (1 / (2 : Nat) * 0 : ℝ) = 0
    rw [mul_zero, Elementary.radians, zero_mul]
  have hdivisor : fittingDivisor (start 0).pose.direction
      (Camera.projection (start 0).camera).halfFovy = 0 := by
    rw [hhalf, fittingDivisor_zero]
  exact ⟨hpose, hevents, hrigid, hhome, hdivisor, hcenter hdivisor ⟨1, 2, 0⟩ 10⟩

end Navigator

end Lookout

/-
Lookout.Proofs.Scene.Home — the home position of a scene camera, over whole
sessions.

A home position is given directly, or by a centre request that is met. No other
event touches it (`home_handle`), so at any time it is the one that was given
last (`home_run`). The projection is touched by the canvas alone, and the
canvas has its aspect only (`projection_run`). The view matrix is that of the
home position whenever the camera has just gone home.
-/
import Lookout.Proofs.Scene.Calls
import Lookout.Scene.Session

namespace Lookout

section Events

variable {α : Type} [Zero α] [One α] [Add α] [Neg α] [Sub α] [Mul α] [Div α]
  [NatCast α] [LE α] [DecidableLE α] [LT α] [DecidableLT α] [BEq α] [Elementary α]

/-! ## Events -/

/-- The home position that an event gives to a camera. -/
def SceneEvent.home? (c : SceneCamera α) : SceneEvent α → Option (Pose α)
  | .setHome pose => some pose
  | .request (.centerTo position radius _) =>
    if Camera.Fits c radius then some (Camera.framing c position radius) else none
  | _ => none

/-- The canvas that an event brings along. -/
def SceneEvent.canvas? : SceneEvent α → Option Canvas
  | .resize canvas => some canvas
  | _ => none

namespace SceneCamera

variable (c : SceneCamera α) (position : Vec3 α) (radius : α)

/-- To fit a circle is to go home to where it fits. -/
theorem meet_fit :
    Demand.meet c (.fit position radius) =
      if Camera.Fits c radius then
        ⟨(Camera.framing c position radius).viewMatrix, Camera.framing c position radius,
          c.projection⟩
      else c := by
  rw [Demand.meet, Demand.calls]
  split <;> rfl

end SceneCamera

namespace Navigator

variable (n : Navigator (SceneCamera α) α)

theorem camera_centerTo (position : Vec3 α) (radius : α) :
    (n.centerTo position radius).camera = Demand.meet n.camera (.fit position radius) :=
  congrArg Navigator.camera (n.centerTo_eq position radius)

theorem home_handle (event : SceneEvent α) :
    (n.handle event).camera.home = (event.home? n.camera).getD n.camera.home := by
  cases event with
  | request r =>
    cases r with
    | centerTo position radius applyZoom =>
      change (n.centerTo position radius).camera.home = _
      rw [camera_centerTo, SceneCamera.meet_fit, SceneEvent.home?]
      split <;> rfl
    | _ => rfl
  | _ => rfl

theorem projection_handle (event : SceneEvent α) :
    (n.handle event).camera.projection =
      (event.canvas?.map n.camera.projection.resize).getD n.camera.projection := by
  cases event with
  | request r =>
    cases r with
    | centerTo position radius applyZoom =>
      change (n.centerTo position radius).camera.projection = _
      rw [camera_centerTo, SceneCamera.meet_fit]
      split <;> rfl
    | _ => rfl
  | _ => rfl

/-! ## Runs -/

/-- The home positions that some events give, the first one first. -/
def homesGiven (n : Navigator (SceneCamera α) α) : List (SceneEvent α) → List (Pose α)
  | [] => []
  | event :: later => (event.home? n.camera).toList ++ homesGiven (n.handle event) later

theorem home_run (events : List (SceneEvent α)) :
    (n.run events).camera.home = (n.homesGiven events).getLast?.getD n.camera.home := by
  induction events generalizing n with
  | nil => rfl
  | cons event later ih =>
    change ((n.handle event).run later).camera.home = _
    rw [ih, home_handle, homesGiven]
    cases event.home? n.camera <;> simp [List.getLast?_cons]

/-- The aspect is that of the last canvas that has one. -/
theorem projection_run (events : List (SceneEvent α)) :
    (n.run events).camera.projection =
      { n.camera.projection with
        aspect := ((events.filterMap SceneEvent.canvas?).filterMap Canvas.aspect?).getLast?.getD
          n.camera.projection.aspect } := by
  induction events generalizing n with
  | nil => rfl
  | cons event later ih =>
    change ((n.handle event).run later).camera.projection = _
    rw [ih, projection_handle, List.filterMap_cons]
    cases event.canvas? with
    | none => rfl
    | some canvas =>
      simp only [Option.map_some, Option.getD_some, Projection.resize, List.filterMap_cons]
      cases (canvas.aspect? : Option α) <;> simp [List.getLast?_cons]

end Navigator

end Events

namespace Navigator

/-- After any events the home position is the one that was given last, by
`setHome` or by a centre request that was met, or the one at the beginning.
Going home, and a centre request that is met, take the camera exactly there. A
new home position and a new canvas leave the camera where it is, and of the
projection a canvas changes nothing but the aspect. -/
theorem run_home_eq_last_given (pose : Pose Binary64) (projection : Projection Binary64)
    (viewport : Boundary Binary64) (events : List (SceneEvent Binary64)) :
    let start : Navigator (SceneCamera Binary64) Binary64 :=
      ofViewport (.atPose pose projection) viewport
    let n := start.run events
    n.camera.home = (start.homesGiven events).getLast?.getD pose ∧
      (∀ event, (n.handle event).camera.home = (event.home? n.camera).getD n.camera.home) ∧
      (n.handle .home).camera.viewMatrix = (n.handle .home).camera.home.viewMatrix ∧
      (∀ position radius applyZoom,
        let c := (n.handle (.request (.centerTo position radius applyZoom))).camera
        if Camera.Fits n.camera radius then
          c.home = Camera.framing n.camera position radius ∧ c.viewMatrix = c.home.viewMatrix
        else c = n.camera) ∧
      (∀ p, (n.handle (.setHome p)).camera.viewMatrix = n.camera.viewMatrix) ∧
      (∀ canvas, (n.handle (.resize canvas)).camera.viewMatrix = n.camera.viewMatrix) ∧
      n.camera.projection =
        { projection with
          aspect := ((events.filterMap SceneEvent.canvas?).filterMap Canvas.aspect?).getLast?.getD
            projection.aspect } := by
  intro start n
  refine ⟨start.home_run events, n.home_handle, rfl, ?_, fun _ => rfl, fun _ => rfl,
    start.projection_run events⟩
  intro position radius applyZoom c
  have hc : c = Demand.meet n.camera (.fit position radius) := n.camera_centerTo position radius
  rw [hc, SceneCamera.meet_fit]
  split
  · exact ⟨rfl, rfl⟩
  · rfl

end Navigator

end Lookout

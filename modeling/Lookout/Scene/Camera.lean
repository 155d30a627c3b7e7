/-
Lookout.Scene.Camera — cameras as whoever steers them sees them, and the
camera of a scene.

`Camera` is all that steering needs to know of a camera. `SceneCamera` is one
that keeps its transform itself, with a home position to return to, and tells its
pose by the transform.
-/
import Lookout.Scene.Pose
import Lookout.Scene.Projection

namespace Lookout

/-- A camera that can be steered. -/
class Camera (C : Type) (α : outParam Type) where
  /-- The transform from the world to the eye. -/
  viewMatrix : C → Matrix4 α
  /-- The eye, what it looks at and the direction upwards, as the camera tells them. -/
  pose : C → Pose α
  setViewMatrix : C → Matrix4 α → C
  setHome : C → Pose α → C
  /-- Moves the camera to its home position. -/
  home : C → C
  projection : C → Projection α
  /-- Lets the aspect of the projection follow a canvas. -/
  resize : C → Canvas → C

/-- A camera that keeps its transform and its home position. -/
structure SceneCamera (α : Type) where
  viewMatrix : Matrix4 α
  home : Pose α
  projection : Projection α
deriving DecidableEq

namespace SceneCamera

variable {α : Type}

/-- A camera at a pose, which is also its home position. -/
def atPose [Zero α] [One α] [Add α] [Neg α] [Sub α] [Mul α] [Div α] [Elementary α]
    (pose : Pose α) (projection : Projection α) : SceneCamera α :=
  ⟨pose.viewMatrix, pose, projection⟩

instance [Zero α] [One α] [Add α] [Neg α] [Sub α] [Mul α] [Div α] [NatCast α] [Elementary α] :
    Camera (SceneCamera α) α where
  viewMatrix c := c.viewMatrix
  pose c := .ofViewMatrix c.viewMatrix
  setViewMatrix c m := { c with viewMatrix := m }
  setHome c pose := { c with home := pose }
  home c := { c with viewMatrix := c.home.viewMatrix }
  projection c := c.projection
  resize c canvas := { c with projection := c.projection.resize canvas }

/-- From the world to clip coordinates. -/
def viewProjectionMatrix [Zero α] [One α] [Add α] [Neg α] [Sub α] [Mul α] [Div α] [NatCast α]
    [LE α] [DecidableLE α] [LT α] [DecidableLT α] [BEq α] [Elementary α] (c : SceneCamera α) :
    Except ProjectionError (Matrix4 α) :=
  c.projection.matrix.map (· * c.viewMatrix)

end SceneCamera

end Lookout

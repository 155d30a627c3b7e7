/-
Lookout.Scene.Session — all that can happen to a navigator and its camera.

Besides the requests of the view, the camera may be moved directly, get
another home position, or see its canvas resized.
-/
import Lookout.Scene.Navigator

namespace Lookout

/-- A request of the view, or a call to the camera itself. -/
inductive SceneEvent (α : Type) where
  | request (r : Request α)
  | home
  | setHome (pose : Pose α)
  | setViewMatrix (m : Matrix4 α)
  | resize (canvas : Canvas)

namespace Navigator

variable {C α : Type} [Camera C α] [Zero α] [One α] [Add α] [Neg α] [Sub α] [Mul α] [Div α]
  [NatCast α] [LE α] [DecidableLE α] [LT α] [DecidableLT α] [BEq α] [Elementary α]

/-- The navigator after an event. -/
def handle (n : Navigator C α) : SceneEvent α → Navigator C α
  | .request r => n.perform r
  | .home => { n with camera := Camera.home n.camera }
  | .setHome pose => { n with camera := Camera.setHome n.camera pose }
  | .setViewMatrix m => { n with camera := Camera.setViewMatrix n.camera m }
  | .resize canvas => { n with camera := Camera.resize n.camera canvas }

/-- The navigator after some events. -/
def run (n : Navigator C α) (events : List (SceneEvent α)) : Navigator C α :=
  events.foldl handle n

end Navigator

end Lookout

/-
Lookout.Scene.Recorder — a camera that keeps a list of the calls that move it
or its home position.

A recorder passes every call on to the camera inside it, so whoever steers it
cannot tell the difference.
-/
import Lookout.Scene.Camera

namespace Lookout

/-- A call that moves a camera or its home position. -/
inductive CameraCall (α : Type) where
  | setViewMatrix (m : Matrix4 α)
  | setHome (pose : Pose α)
  | home
deriving DecidableEq

/-- The camera after a call. -/
def CameraCall.apply {C α : Type} [Camera C α] (c : C) : CameraCall α → C
  | .setViewMatrix m => Camera.setViewMatrix c m
  | .setHome pose => Camera.setHome c pose
  | .home => Camera.home c

/-- A camera with the calls that have moved it or its home, the first call first. -/
structure Recorder (C α : Type) where
  camera : C
  calls : List (CameraCall α)

namespace Recorder

variable {C α : Type} [Camera C α]

/-- A camera at which no call has been made yet. -/
def ofCamera (camera : C) : Recorder C α := ⟨camera, []⟩

/-- Passes a call on and notes it. -/
def call (r : Recorder C α) (c : CameraCall α) : Recorder C α :=
  ⟨c.apply r.camera, r.calls ++ [c]⟩

instance : Camera (Recorder C α) α where
  viewMatrix r := Camera.viewMatrix r.camera
  pose r := Camera.pose r.camera
  setViewMatrix r m := r.call (.setViewMatrix m)
  setHome r pose := r.call (.setHome pose)
  home r := r.call .home
  projection r := Camera.projection r.camera
  resize r canvas := { r with camera := Camera.resize r.camera canvas }

end Recorder

end Lookout

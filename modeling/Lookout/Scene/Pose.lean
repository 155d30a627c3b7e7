/-
Lookout.Scene.Pose — where a camera stands, what it looks at and which way is
up, and the view matrix that says the same.

A view matrix takes world coordinates to those of the eye, where the camera
looks along `-Z` and up is `Y`. `Pose.viewMatrix` builds it from a pose;
`Pose.ofViewMatrix` recovers a pose whose look-at point is one unit in front
of the eye.
-/
import Lookout.Scene.Matrix

namespace Lookout

/-- The placement of a camera: look-from point, look-at point and up vector. -/
structure Pose (α : Type) where
  eye : Vec3 α
  center : Vec3 α
  up : Vec3 α
deriving DecidableEq

namespace Pose

variable {α : Type}

/-- From the eye to the look-at point, not normalized. -/
def direction [Sub α] (p : Pose α) : Vec3 α := p.center - p.eye

/-- Moves the eye and the look-at point. -/
def shiftBy [Add α] (p : Pose α) (shift : Vec3 α) : Pose α :=
  ⟨p.eye + shift, p.center + shift, p.up⟩

/-- The transform from the world to the eye. Its axes are `z` against the
direction, `x` at right angles to up and `z`, and `y` at right angles to both. -/
def viewMatrix [Zero α] [One α] [Add α] [Neg α] [Sub α] [Mul α] [Div α] [Elementary α]
    (p : Pose α) : Matrix4 α :=
  let z := (-p.direction).normalize
  let x := (p.up.cross z).normalize
  let y := z.cross x
  let origin := -p.eye
  .ofRotation x y z ⟨x.dot origin, y.dot origin, z.dot origin⟩

/-- The pose of a rigid transform from the world to the eye. -/
def ofViewMatrix [Zero α] [One α] [Add α] [Neg α] [Mul α] [Div α] [Elementary α]
    (m : Matrix4 α) : Pose α :=
  let eye := -(m.rotateBack m.offset)
  let forward := (m.rotateBack (-Vec3.unitZ)).normalize
  ⟨eye, eye + forward, m.rotateBack Vec3.unitY⟩

end Pose

end Lookout

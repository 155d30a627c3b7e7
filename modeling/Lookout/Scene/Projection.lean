/-
Lookout.Scene.Projection — the perspective of a camera.

The field of view is the vertical one, in degrees. The aspect follows the
canvas, but a collapsed canvas, one without width or height, has none. The
projection matrix exists unless the near and the far plane coincide or the
aspect vanishes, both up to a small tolerance.
-/
import Lookout.Scene.Matrix

namespace Lookout

-- Powers of natural numbers are the ones of the core library, whatever else is imported.
attribute [local instance (high)] instPowNat

/-- The size of a canvas in pixels. -/
structure Canvas where
  width : UInt32
  height : UInt32
deriving DecidableEq

/-- Width over height; a collapsed canvas has no aspect. -/
def Canvas.aspect? {α : Type} [Div α] [NatCast α] (c : Canvas) : Option α :=
  if c.width = 0 ∨ c.height = 0 then none
  else some ((c.width.toNat : α) / (c.height.toNat : α))

/-- Perspective parameters of a camera. -/
structure Projection (α : Type) where
  fovyDegrees : α
  aspect : α
  near : α
  far : α
deriving DecidableEq

/-- Why a projection has no matrix. -/
inductive ProjectionError where
  | superimposedPlanes
  | zeroAspect
deriving DecidableEq

def ProjectionError.message : ProjectionError → String
  | .superimposedPlanes => "The near-plane and far-plane must not be superimposed."
  | .zeroAspect => "The aspect ratio must not be zero."

namespace Projection

variable {α : Type}

/-! ## Aspect -/

/-- A projection for a canvas; a collapsed canvas counts as a square. -/
def ofCanvas [One α] [Div α] [NatCast α] (c : Canvas) (fovyDegrees near far : α) : Projection α :=
  ⟨fovyDegrees, c.aspect?.getD 1, near, far⟩

/-- Takes the aspect of a canvas; a collapsed canvas changes nothing. -/
def resize [Div α] [NatCast α] (p : Projection α) (c : Canvas) : Projection α :=
  { p with aspect := c.aspect?.getD p.aspect }

/-- Half the field of view in radians. -/
def halfFovy [One α] [Mul α] [Div α] [NatCast α] [Elementary α] (p : Projection α) : α :=
  Elementary.radians (1 / (2 : Nat) * p.fovyDegrees)

/-! ## Matrix -/

def absolute [Zero α] [Neg α] [LT α] [DecidableLT α] (a : α) : α := if a < 0 then -a else a

/-- The distance from one to the next larger binary64 number. -/
def tolerance [One α] [Div α] [NatCast α] : α := 1 / ((2 ^ (52 : Nat) : Nat) : α)

/-- Whether two numbers are equal up to the tolerance, in absolute terms or
relative to the larger one. -/
def nearlyEqual [Zero α] [One α] [Neg α] [Sub α] [Mul α] [Div α] [NatCast α] [LE α]
    [DecidableLE α] [LT α] [DecidableLT α] [BEq α] [Elementary α] (a b : α) : Bool :=
  if a == b then true
  else if !Elementary.isFinite a || !Elementary.isFinite b then false
  else
    let difference := absolute (a - b)
    let largest := if absolute a < absolute b then absolute b else absolute a
    decide (difference ≤ tolerance) || decide (difference ≤ largest * tolerance)

/-- The projection matrix: eye coordinates to clip coordinates. -/
def matrix [Zero α] [One α] [Add α] [Neg α] [Sub α] [Mul α] [Div α] [NatCast α] [LE α]
    [DecidableLE α] [LT α] [DecidableLT α] [BEq α] [Elementary α] (p : Projection α) :
    Except ProjectionError (Matrix4 α) :=
  if nearlyEqual p.far p.near then .error .superimposedPlanes
  else if nearlyEqual p.aspect 0 then .error .zeroAspect
  else
    let scale := 1 / Elementary.tan (Elementary.radians p.fovyDegrees / (2 : Nat))
    let depth := p.near - p.far
    .ok ⟨⟨scale / p.aspect, 0, 0, 0⟩, ⟨0, scale, 0, 0⟩,
      ⟨0, 0, (p.far + p.near) / depth, p.far * p.near * (2 : Nat) / depth⟩,
      ⟨0, 0, -1, 0⟩⟩

end Projection

end Lookout

/-
Lookout.Numeric.Elementary — what the camera geometry asks of its numbers
beyond the four operations and the comparisons.

The geometry is written once for every kind of number: binary64 when the
program runs, the reals where one reasons about exact arithmetic.
-/

namespace Lookout

/-- Numbers with a square root, the trigonometric functions of an angle in
radians, and a test for being finite. -/
class Elementary (α : Type) where
  sqrt : α → α
  sin : α → α
  cos : α → α
  tan : α → α
  isFinite : α → Bool
  /-- The factor π/180 as this kind of number has it. -/
  radiansPerDegree : α

/-- An angle in degrees, expressed in radians. -/
def Elementary.radians {α : Type} [Elementary α] [Mul α] (degrees : α) : α :=
  degrees * Elementary.radiansPerDegree

end Lookout

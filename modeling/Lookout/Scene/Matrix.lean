/-
Lookout.Scene.Matrix — 4×4 matrices, row by row, and the rotation and the
shift in them.

Entries of a product are plain sums in the order of the columns; no zero is
skipped, so infinities and NaNs spread.
-/
import Lookout.Scene.Vector

namespace Lookout

/-- A row of four numbers. -/
structure Row4 (α : Type) where
  x : α
  y : α
  z : α
  w : α
deriving DecidableEq

/-- A 4×4 matrix. -/
structure Matrix4 (α : Type) where
  first : Row4 α
  second : Row4 α
  third : Row4 α
  fourth : Row4 α
deriving DecidableEq

variable {α : Type}

def Row4.toList (r : Row4 α) : List α := [r.x, r.y, r.z, r.w]

namespace Matrix4

/-- The entries row by row. -/
def toList (m : Matrix4 α) : List α :=
  m.first.toList ++ m.second.toList ++ m.third.toList ++ m.fourth.toList

/-! ## Products -/

/-- A row times a matrix. -/
def rowMul [Add α] [Mul α] (r : Row4 α) (m : Matrix4 α) : Row4 α :=
  ⟨r.x * m.first.x + r.y * m.second.x + r.z * m.third.x + r.w * m.fourth.x,
    r.x * m.first.y + r.y * m.second.y + r.z * m.third.y + r.w * m.fourth.y,
    r.x * m.first.z + r.y * m.second.z + r.z * m.third.z + r.w * m.fourth.z,
    r.x * m.first.w + r.y * m.second.w + r.z * m.third.w + r.w * m.fourth.w⟩

instance [Add α] [Mul α] : Mul (Matrix4 α) :=
  ⟨fun m n => ⟨rowMul m.first n, rowMul m.second n, rowMul m.third n, rowMul m.fourth n⟩⟩

/-! ## Rigid transforms -/

/-- The transform that rotates by the matrix with the rows `x`, `y` and `z` and
then shifts by `offset`. -/
def ofRotation [Zero α] [One α] (x y z offset : Vec3 α) : Matrix4 α :=
  ⟨⟨x.x, x.y, x.z, offset.x⟩, ⟨y.x, y.y, y.z, offset.y⟩,
    ⟨z.x, z.y, z.z, offset.z⟩, ⟨0, 0, 0, 1⟩⟩

/-- The shift: the last column. -/
def offset (m : Matrix4 α) : Vec3 α := ⟨m.first.w, m.second.w, m.third.w⟩

/-- The transposed rotation times a vector. -/
def rotateBack [Add α] [Mul α] (m : Matrix4 α) (v : Vec3 α) : Vec3 α :=
  ⟨m.first.x * v.x + m.second.x * v.y + m.third.x * v.z,
    m.first.y * v.x + m.second.y * v.y + m.third.y * v.z,
    m.first.z * v.x + m.second.z * v.y + m.third.z * v.z⟩

end Matrix4

end Lookout

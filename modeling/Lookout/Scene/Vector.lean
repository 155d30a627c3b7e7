/-
Lookout.Scene.Vector — vectors and points of three dimensions.

Sums of products are formed from left to right, and the norm is not scaled, so
very long and very short vectors may lose it.
-/
import Lookout.Numeric.Elementary

namespace Lookout

/-- A vector, or a point, in three dimensions. -/
structure Vec3 (α : Type) where
  x : α
  y : α
  z : α
deriving DecidableEq

namespace Vec3

variable {α : Type}

/-! ## Linear operations -/

instance [Add α] : Add (Vec3 α) := ⟨fun u v => ⟨u.x + v.x, u.y + v.y, u.z + v.z⟩⟩

instance [Sub α] : Sub (Vec3 α) := ⟨fun u v => ⟨u.x - v.x, u.y - v.y, u.z - v.z⟩⟩

instance [Neg α] : Neg (Vec3 α) := ⟨fun u => ⟨-u.x, -u.y, -u.z⟩⟩

/-- The vector with every component multiplied by `k`. -/
def scale [Mul α] (u : Vec3 α) (k : α) : Vec3 α := ⟨u.x * k, u.y * k, u.z * k⟩

/-! ## Unit vectors of the axes -/

def unitX [Zero α] [One α] : Vec3 α := ⟨1, 0, 0⟩

def unitY [Zero α] [One α] : Vec3 α := ⟨0, 1, 0⟩

def unitZ [Zero α] [One α] : Vec3 α := ⟨0, 0, 1⟩

/-! ## Products and length -/

def dot [Add α] [Mul α] (u v : Vec3 α) : α := u.x * v.x + u.y * v.y + u.z * v.z

def cross [Sub α] [Mul α] (u v : Vec3 α) : Vec3 α :=
  ⟨u.y * v.z - u.z * v.y, u.z * v.x - u.x * v.z, u.x * v.y - u.y * v.x⟩

def norm [Add α] [Mul α] [Elementary α] (u : Vec3 α) : α := Elementary.sqrt (u.dot u)

/-- The vector divided by its norm; a zero vector has no direction. -/
def normalize [Add α] [Mul α] [Div α] [Elementary α] (u : Vec3 α) : Vec3 α :=
  ⟨u.x / u.norm, u.y / u.norm, u.z / u.norm⟩

end Vec3

end Lookout

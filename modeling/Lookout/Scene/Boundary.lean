/-
Lookout.Scene.Boundary — axis-aligned rectangles in the plane of the network.
-/

namespace Lookout

/-- An axis-aligned rectangle. -/
structure Boundary (α : Type) where
  xMin : α
  yMin : α
  xMax : α
  yMax : α
deriving DecidableEq

namespace Boundary

variable {α : Type}

/-- The smaller of two numbers, of two equal ones the second; a NaN, which does
not equal itself, gives way to the other. -/
def lesser [LT α] [DecidableLT α] [BEq α] (a b : α) : α :=
  if a < b then a else if b == b then b else a

/-- The larger of two numbers, of two equal ones the second; a NaN, which does
not equal itself, gives way to the other. -/
def greater [LT α] [DecidableLT α] [BEq α] (a b : α) : α :=
  if b < a then a else if b == b then b else a

/-- The rectangle between two opposite corners. -/
def ofCorners [LT α] [DecidableLT α] [BEq α] (x₁ y₁ x₂ y₂ : α) : Boundary α :=
  ⟨lesser x₁ x₂, lesser y₁ y₂, greater x₁ x₂, greater y₁ y₂⟩

def width [Sub α] (b : Boundary α) : α := b.xMax - b.xMin

def height [Sub α] (b : Boundary α) : α := b.yMax - b.yMin

def centerX [Add α] [Div α] [NatCast α] (b : Boundary α) : α := (b.xMin + b.xMax) / (2 : Nat)

def centerY [Add α] [Div α] [NatCast α] (b : Boundary α) : α := (b.yMin + b.yMax) / (2 : Nat)

end Boundary

end Lookout

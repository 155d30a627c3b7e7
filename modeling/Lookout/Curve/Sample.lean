/-
Lookout.Curve.Sample — one observation of a sampled function: a key and the
value there.
-/
import Lookout.Numeric.Binary64.Basic

namespace Lookout

/-- An order in which samples are kept. For binary64 it is the total order, so
that NaN keys have a place too. -/
class KeyOrder (α : Type) where
  precedes : α → α → Bool

instance : KeyOrder Binary64 := ⟨Binary64.totalLE⟩

/-- One `(key, value)` observation of a sampled function. -/
structure Sample (α : Type) where
  key : α
  value : α
deriving DecidableEq

namespace Sample

variable {α : Type}

/-- Samples are equal when their keys and their values are; a NaN equals nothing. -/
instance [BEq α] : BEq (Sample α) := ⟨fun s t => s.key == t.key && s.value == t.value⟩

/-- The slope of the straight line through two samples. -/
def slope [Sub α] [Div α] (left right : Sample α) : α :=
  (right.value - left.value) / (right.key - left.key)

end Sample

end Lookout

/-
Lookout.Numeric.Binary64.Rounding — the value of a magnitude code, and the
nearest code to a quotient.

Every finite binary64 number is a whole number of units of 2^-1074, so exact
values are natural numbers, and rounding starts from a quotient of two of
them: `roundMagnitude n d` is the code nearest to `n / d` units, a tie going
to the even code. Values from half a step above the largest finite number on
become infinite.
-/
import Lookout.Numeric.Binary64.Basic

namespace Lookout

-- Powers of natural numbers are the ones of the core library, whatever else is imported.
attribute [local instance (high)] instPowNat

namespace Binary64

/-- One is `2 ^ 1074` units. -/
def unitsPerOne : Nat := 2 ^ (1074 : Nat)

/-- The exponent stays a variable: a literal of this size stops the simplifier. -/
theorem unitsPerOne_eq {n : Nat} (hn : n = 1074) : unitsPerOne = 2 ^ n := by
  rw [hn, unitsPerOne]

/-- The number of units that a finite magnitude code stands for. -/
def unitsOfMagnitude (magnitude : Nat) : Nat :=
  if magnitude / 2 ^ (52 : Nat) = 0 then magnitude % 2 ^ (52 : Nat)
  else (2 ^ (52 : Nat) + magnitude % 2 ^ (52 : Nat)) * 2 ^ (magnitude / 2 ^ (52 : Nat) - 1)

/-- The absolute value in units. -/
def units (x : Binary64) : Nat := unitsOfMagnitude x.magnitude

/-- The value in units, with its sign. -/
def signedUnits (x : Binary64) : Int := if x.negative then -(x.units : Int) else x.units

/-- The whole number nearest to `n / d`; of two that are equally near, the even one. -/
def nearestEven (n d : Nat) : Nat :=
  if 2 * (n % d) < d then n / d
  else if d < 2 * (n % d) then n / d + 1
  else n / d + n / d % 2

/-- The magnitude code nearest to `n / d` units. Above 53 significant bits the
codes are `2 ^ step` units apart. -/
def roundMagnitude (n d : Nat) : Nat :=
  let step := (n / d).log2 - 52
  min (step * 2 ^ (52 : Nat) + nearestEven n (d * 2 ^ step)) infinityMagnitude

theorem roundMagnitude_le (n d : Nat) : roundMagnitude n d ≤ infinityMagnitude :=
  Nat.min_le_right _ _

/-- The binary64 number nearest to `n / d` units, with the given sign. -/
def nearest (negative : Bool) (n d : Nat) : Binary64 :=
  ⟨negative, roundMagnitude n d, Nat.lt_of_le_of_lt (roundMagnitude_le n d) infinityMagnitude_lt⟩

end Binary64

end Lookout

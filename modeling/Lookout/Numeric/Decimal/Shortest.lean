/-
Lookout.Numeric.Decimal.Shortest — the shortest decimal number that reads
back as a given binary64 number, and the plain text of it.

The value of a code is exactly `N · 10 ^ -1074` for a natural number `N`, so
leaving out its last `j` digits leaves two neighbours on the grid of
`10 ^ (j - 1074)`. The search starts on the coarsest grid and takes the first
one on which a neighbour reads back; of two the nearer, a tie going up. On the
finest grid the value itself reads back.
-/
import Lookout.Numeric.Decimal.Basic

namespace Lookout

-- Powers of natural numbers are the ones of the core library, whatever else is imported.
attribute [local instance (high)] instPowNat

namespace Decimal

/-- `10 ^ -1074` divides every finite binary64 value. -/
def finestScale : Int := -1074

/-- The value of a magnitude code in steps of `10 ^ finestScale`. -/
def exactDigits (magnitude : Nat) : Nat := Binary64.unitsOfMagnitude magnitude * 5 ^ (1074 : Nat)

/-- The exponent stays a variable: a literal of this size stops the simplifier. -/
theorem exactDigits_eq {n : Nat} (hn : n = 1074) (magnitude : Nat) :
    exactDigits magnitude = Binary64.unitsOfMagnitude magnitude * 5 ^ n := by
  rw [hn, exactDigits]

/-- The neighbour of the value without its last `j` digits that reads back as
the code, if one does. -/
def shortened? (magnitude j : Nat) : Option Decimal :=
  let exact := exactDigits magnitude
  let lower : Decimal := ⟨exact / 10 ^ j, finestScale + j⟩
  let upper : Decimal := ⟨exact / 10 ^ j + 1, finestScale + j⟩
  if lower.magnitude = magnitude then
    if upper.magnitude = magnitude ∧ 10 ^ j ≤ 2 * (exact % 10 ^ j) then some upper
    else some lower
  else if upper.magnitude = magnitude then some upper
  else none

/-- The first shortening that reads back, with at most `j` digits left out. -/
def shortestFrom (magnitude : Nat) : Nat → Decimal
  | 0 => ⟨exactDigits magnitude, finestScale⟩
  | j + 1 => (shortened? magnitude (j + 1)).getD (shortestFrom magnitude j)

/-- The shortest decimal number that reads back as the code, the nearest of
several. A number with `k + 1` bits has fewer than `0.30103 · (k + 1) + 1` digits. -/
def shortest (magnitude : Nat) : Decimal :=
  shortestFrom magnitude (((exactDigits magnitude).log2 + 1) * 30103 / 100000)

end Decimal

namespace Binary64

def signText (negative : Bool) : List Char := if negative then ['-'] else []

/-- The shortest plain text that reads back as the number. A NaN does not show its sign. -/
def shortestText (x : Binary64) : List Char :=
  if x.isNaN then ['N', 'a', 'N']
  else if x.isInfinite then signText x.negative ++ ['i', 'n', 'f']
  else signText x.negative ++ (Decimal.shortest x.magnitude).plain

end Binary64

end Lookout

/-
Lookout.Numeric.Decimal.Fixed — a binary64 number with a fixed number of
places after the point.

The exact value is rounded, a tie going to the even last digit. A negative
value keeps its sign also where all of its digits are zero.
-/
import Lookout.Numeric.Decimal.Shortest

namespace Lookout

-- Powers of natural numbers are the ones of the core library, whatever else is imported.
attribute [local instance (high)] instPowNat

namespace Binary64

/-- The number with `places` digits after the point. -/
def fixedText (places : Nat) (x : Binary64) : List Char :=
  if x.isNaN then ['N', 'a', 'N']
  else if x.isInfinite then signText x.negative ++ ['i', 'n', 'f']
  else signText x.negative ++
    Decimal.pointed places (nearestEven (x.units * 10 ^ places) unitsPerOne)

end Binary64

end Lookout

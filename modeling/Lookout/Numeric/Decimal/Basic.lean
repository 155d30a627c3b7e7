/-
Lookout.Numeric.Decimal.Basic — decimal numbers `digits · 10 ^ scale`, the
binary64 number nearest to one, and their plain positional text.
-/
import Lookout.Numeric.Binary64.Rounding

namespace Lookout

-- Powers of natural numbers are the ones of the core library, whatever else is imported.
attribute [local instance (high)] instPowNat

/-- The non-negative decimal number `digits · 10 ^ scale`. -/
structure Decimal where
  digits : Nat
  scale : Int
deriving DecidableEq

namespace Decimal

/-! ## Nearest binary64 number -/

/-- The magnitude code nearest to a decimal number. Beyond the first two tests
the powers of ten stay within the size of the digits: `10 ^ 401` is already
infinite, and a value below `10 ^ -399` already zero. -/
def magnitude (x : Decimal) : Nat :=
  if x.digits = 0 then 0
  else if 400 < x.scale then Binary64.infinityMagnitude
  else if (x.digits.log2 : Int) + x.scale < -400 then 0
  else Binary64.roundMagnitude (x.digits * 10 ^ x.scale.toNat * Binary64.unitsPerOne)
    (10 ^ (-x.scale).toNat)

theorem magnitude_le (x : Decimal) : x.magnitude ≤ Binary64.infinityMagnitude := by
  unfold magnitude
  split
  · exact Nat.zero_le _
  · split
    · exact Nat.le_refl _
    · split
      · exact Nat.zero_le _
      · exact Binary64.roundMagnitude_le _ _

/-- The binary64 number nearest to a decimal number, with the given sign. -/
def toBinary64 (negative : Bool) (x : Decimal) : Binary64 :=
  ⟨negative, x.magnitude, Nat.lt_of_le_of_lt x.magnitude_le Binary64.infinityMagnitude_lt⟩

/-! ## Plain text -/

/-- The digits of `n`, with zeros in front up to `width` places. -/
def padded (width n : Nat) : List Char :=
  List.replicate (width - (Nat.toDigits 10 n).length) '0' ++ Nat.toDigits 10 n

/-- The digits of `n` with a point before the last `places` of them; no point
if there are none. -/
def pointed (places n : Nat) : List Char :=
  if places = 0 then Nat.toDigits 10 n
  else Nat.toDigits 10 (n / 10 ^ places) ++ '.' :: padded places (n % 10 ^ places)

/-- Removes the zeros at the end of a text. -/
def dropTrailingZeros (text : List Char) : List Char :=
  (text.reverse.dropWhile (· == '0')).reverse

/-- The digits before the point, then the point and the digits after it up to
the last that is no zero; no point if there is no such digit, and never an
exponent. -/
def plain (x : Decimal) : List Char :=
  let places := (-x.scale).toNat
  let whole := Nat.toDigits 10 (x.digits * 10 ^ x.scale.toNat / 10 ^ places)
  let fraction := dropTrailingZeros (padded places (x.digits % 10 ^ places))
  if fraction.isEmpty then whole else whole ++ '.' :: fraction

end Decimal

end Lookout

/-
Lookout.Numeric.Binary64.Arithmetic — IEEE 754 arithmetic: each operation is
the exact one followed by one rounding.

Sum, product and quotient of finite numbers are formed exactly in units and
rounded once by `nearest`. An exact sum of zero is positive unless both terms
are negative; a product or quotient is negative when exactly one operand is.
The square root and the trigonometric functions are those of the machine's
own floating-point unit and mathematics library.
-/
import Lookout.Numeric.Binary64.Rounding
import Lookout.Numeric.Elementary

namespace Lookout

-- Powers of natural numbers are the ones of the core library, whatever else is imported.
attribute [local instance (high)] instPowNat

namespace Binary64

/-! ## The four operations -/

/-- The number nearest to a whole number of units; `zeroNegative` is the sign of a zero. -/
def ofSignedUnits (zeroNegative : Bool) (u : Int) : Binary64 :=
  if u = 0 then zero zeroNegative else nearest (decide (u < 0)) u.natAbs 1

def add (x y : Binary64) : Binary64 :=
  if x.isNaN || y.isNaN then nan false
  else if x.isInfinite then
    if y.isInfinite && x.negative != y.negative then nan false else x
  else if y.isInfinite then y
  else ofSignedUnits (x.negative && y.negative) (x.signedUnits + y.signedUnits)

def sub (x y : Binary64) : Binary64 := add x (neg y)

def mul (x y : Binary64) : Binary64 :=
  let negative := x.negative != y.negative
  if x.isNaN || y.isNaN then nan false
  else if x.isInfinite || y.isInfinite then
    if x.isZero || y.isZero then nan false else infinity negative
  else nearest negative (x.units * y.units) unitsPerOne

def div (x y : Binary64) : Binary64 :=
  let negative := x.negative != y.negative
  if x.isNaN || y.isNaN then nan false
  else if x.isInfinite then if y.isInfinite then nan false else infinity negative
  else if y.isInfinite then zero negative
  else if y.isZero then if x.isZero then nan false else infinity negative
  else nearest negative (x.units * unitsPerOne) y.units

/-- The number nearest to a natural number. -/
def ofNat (n : Nat) : Binary64 := nearest false (n * unitsPerOne) 1

instance : Add Binary64 := ⟨add⟩

instance : Sub Binary64 := ⟨sub⟩

instance : Mul Binary64 := ⟨mul⟩

instance : Div Binary64 := ⟨div⟩

instance : Neg Binary64 := ⟨neg⟩

instance : Zero Binary64 := ⟨zero false⟩

instance : One Binary64 := ⟨ofNat 1⟩

instance : NatCast Binary64 := ⟨ofNat⟩

/-! ## Elementary functions -/

/-- The machine number with the same 64 bits. -/
def toFloat (x : Binary64) : Float :=
  Float.ofBits (UInt64.ofNat ((if x.negative then 2 ^ (63 : Nat) else 0) + x.magnitude))

def ofFloat (f : Float) : Binary64 :=
  let bits := f.toBits.toNat
  ⟨decide (2 ^ (63 : Nat) ≤ bits), bits % 2 ^ (63 : Nat), Nat.mod_lt _ (by decide)⟩

/-- The number nearest to π. -/
def pi : Binary64 := ⟨false, 0x400921FB54442D18, by decide⟩

instance : Elementary Binary64 where
  sqrt x := ofFloat x.toFloat.sqrt
  sin x := ofFloat x.toFloat.sin
  cos x := ofFloat x.toFloat.cos
  tan x := ofFloat x.toFloat.tan
  isFinite := isFinite
  radiansPerDegree := pi / ofNat 180

end Binary64

end Lookout

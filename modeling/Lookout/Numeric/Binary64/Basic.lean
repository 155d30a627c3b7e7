/-
Lookout.Numeric.Binary64.Basic — IEEE 754 binary64 numbers as a sign and a
magnitude code, and the three ways in which they are compared.

The magnitude code of a number is its exponent field and its fraction field
read as one number of 63 bits. Codes grow with the absolute value, up to the
code of infinity; every code above that is a NaN. A NaN keeps its sign,
because the total order puts the negative NaNs first and the positive ones
last.

  * `Binary64.rank`    — the order of the real values, both zeros alike;
  * `≤`, `<`, `==`     — the IEEE comparisons, false as soon as a NaN takes part;
  * `Binary64.totalLE` — the total order, which tells `-0` from `0` and has a
                         place for every NaN.
-/

namespace Lookout

-- Powers of natural numbers are the ones of the core library, whatever else is imported.
attribute [local instance (high)] instPowNat

/-- A binary64 number: the sign, and the code of the absolute value. -/
structure Binary64 where
  negative : Bool
  magnitude : Nat
  magnitude_lt : magnitude < 2 ^ (63 : Nat)
deriving DecidableEq

namespace Binary64

/-! ## Classes of numbers -/

/-- The code of infinity: an exponent field of ones over an empty fraction. -/
def infinityMagnitude : Nat := 2047 * 2 ^ (52 : Nat)

theorem infinityMagnitude_lt : infinityMagnitude < 2 ^ (63 : Nat) := by decide

def isNaN (x : Binary64) : Bool := decide (infinityMagnitude < x.magnitude)

def isInfinite (x : Binary64) : Bool := decide (x.magnitude = infinityMagnitude)

def isFinite (x : Binary64) : Bool := decide (x.magnitude < infinityMagnitude)

def isZero (x : Binary64) : Bool := decide (x.magnitude = 0)

/-! ## Special values -/

def zero (negative : Bool) : Binary64 := ⟨negative, 0, by decide⟩

def infinity (negative : Bool) : Binary64 := ⟨negative, infinityMagnitude, infinityMagnitude_lt⟩

/-- The quiet NaN with an empty payload. -/
def nan (negative : Bool) : Binary64 := ⟨negative, 4095 * 2 ^ (51 : Nat), by decide⟩

/-- Flips the sign, of a NaN too. -/
def neg (x : Binary64) : Binary64 := ⟨!x.negative, x.magnitude, x.magnitude_lt⟩

/-! ## Comparisons -/

/-- Orders the numbers that are no NaN as their real values; `-0` and `0` have one rank. -/
def rank (x : Binary64) : Int := if x.negative then -(x.magnitude : Int) else x.magnitude

instance : LE Binary64 := ⟨fun x y => x.isNaN = false ∧ y.isNaN = false ∧ x.rank ≤ y.rank⟩

instance : LT Binary64 := ⟨fun x y => x.isNaN = false ∧ y.isNaN = false ∧ x.rank < y.rank⟩

instance : BEq Binary64 := ⟨fun x y => !x.isNaN && !y.isNaN && decide (x.rank = y.rank)⟩

instance : DecidableLE Binary64 := fun x y =>
  inferInstanceAs (Decidable (x.isNaN = false ∧ y.isNaN = false ∧ x.rank ≤ y.rank))

instance : DecidableLT Binary64 := fun x y =>
  inferInstanceAs (Decidable (x.isNaN = false ∧ y.isNaN = false ∧ x.rank < y.rank))

/-- The place of a number in the total order: negative NaNs, `-∞`, the negative
numbers, `-0`, `0`, the positive numbers, `∞`, positive NaNs. -/
def totalKey (x : Binary64) : Int :=
  if x.negative then -1 - (x.magnitude : Int) else x.magnitude

def totalLE (x y : Binary64) : Bool := decide (x.totalKey ≤ y.totalKey)

end Binary64

end Lookout

/-
Lookout.Json.Number — numbers in a JSON document: their written form, and
whether binary64 has room for them.

A number is an optional minus sign, an integer without leading zeros, an
optional fraction and an optional exponent. Its value is taken from the digits
that fit into 64 bits; the other integer digits raise the exponent and the
other fraction digits are left out. The power of ten is then one binary64
multiplication or division, and a number whose product is infinite is too
large. Numbers that are too small become zero.
-/
import Lookout.Numeric.Binary64.Arithmetic
import Lookout.Numeric.Digits

namespace Lookout

-- Powers of natural numbers are the ones of the core library, whatever else is imported.
attribute [local instance (high)] instPowNat

namespace Json

/-- The written form of a number, cut into its parts. -/
structure Number where
  negative : Bool
  integer : List Char
  fraction : List Char
  exponent : Int
deriving DecidableEq

namespace Number

/-! ## Reading -/

/-- A fraction is a point and at least one digit; it may be missing. -/
def fraction? : List Char → Option (List Char × List Char)
  | '.' :: rest =>
    let digits := rest.takeWhile Char.isDigit
    if digits.isEmpty then none else some (digits, rest.dropWhile Char.isDigit)
  | rest => some ([], rest)

/-- Zero alone, or digits of which the first is no zero. -/
def isInteger (digits : List Char) : Bool :=
  match digits with
  | [] => false
  | first :: rest => first != '0' || rest.isEmpty

/-- A number after its sign. -/
def unsigned? (negative : Bool) (text : List Char) : Option Number := do
  let integer := text.takeWhile Char.isDigit
  if isInteger integer then
    let (fraction, rest) ← fraction? (text.dropWhile Char.isDigit)
    let exponent ← Digits.exponent? rest
    return ⟨negative, integer, fraction, exponent⟩
  else none

/-- Reads a whole text as a number. -/
def read? : List Char → Option Number
  | '-' :: rest => unsigned? true rest
  | rest => unsigned? false rest

/-! ## Value -/

/-- Appends digits to a number as long as it stays below `2 ^ 64`; also gives the
digits that are left over. -/
def takeDigits (n : Nat) : List Char → Nat × List Char
  | [] => (n, [])
  | c :: rest =>
    let next := 10 * n + (c.toNat - '0'.toNat)
    if next < 2 ^ (64 : Nat) then takeDigits next rest else (n, c :: rest)

/-- The digits that fit into 64 bits, and the power of ten that belongs to them. -/
def significand (x : Number) : Nat × Int :=
  let (leading, dropped) := takeDigits 0 x.integer
  let (digits, unused) := takeDigits leading x.fraction
  (digits, x.exponent + dropped.length - (x.fraction.length - unused.length : Nat))

/-- `digits · 10 ^ exponent`; nothing if it is too large. Powers of ten beyond
`10 ^ 308` are no binary64 numbers, so a longer division is made in two steps. -/
def scaled? (digits : Nat) (exponent : Int) : Option Binary64 :=
  if digits = 0 then some 0
  else if 308 < exponent then none
  else if 0 ≤ exponent then
    let product := Binary64.ofNat digits * Binary64.ofNat (10 ^ exponent.toNat)
    if product.isInfinite then none else some product
  else if -308 ≤ exponent then
    some (Binary64.ofNat digits / Binary64.ofNat (10 ^ (-exponent).toNat))
  else
    let rest := min (-exponent - 308).toNat 400
    some (Binary64.ofNat digits / Binary64.ofNat (10 ^ (308 : Nat)) / Binary64.ofNat (10 ^ rest))

/-- The value of a number, if it is not too large. -/
def value? (x : Number) : Option Binary64 :=
  let (digits, exponent) := x.significand
  (scaled? digits exponent).map fun v => if x.negative then -v else v

end Number

end Json

end Lookout

/-
Lookout.Numeric.Numeral — the written form of a number in a sample table.

A numeral is an optional sign followed by `inf`, `infinity` or `nan` in any
mixture of cases, or by decimal digits with at most one point, at least one
digit beside it, and an optional exponent. Only ASCII digits and letters
count. A NaN keeps the sign that is written.
-/
import Lookout.Numeric.Decimal.Basic
import Lookout.Numeric.Digits

namespace Lookout

/-- What a numeral says. -/
inductive Numeral where
  | infinite (negative : Bool)
  | notANumber (negative : Bool)
  | finite (negative : Bool) (value : Decimal)
deriving DecidableEq

namespace Numeral

/-! ## Reading -/

/-- The digits after a point, and what follows them. -/
def fractionPart : List Char → List Char × List Char
  | '.' :: rest => (rest.takeWhile Char.isDigit, rest.dropWhile Char.isDigit)
  | rest => ([], rest)

/-- Digits with an optional point and an optional exponent. -/
def decimal? (text : List Char) : Option Decimal :=
  let whole := text.takeWhile Char.isDigit
  let (fraction, rest) := fractionPart (text.dropWhile Char.isDigit)
  if whole.isEmpty && fraction.isEmpty then none
  else (Digits.exponent? rest).map fun exponent =>
    ⟨Nat.ofDigitChars 10 (whole ++ fraction) 0, exponent - fraction.length⟩

/-- A numeral after its sign. -/
def unsigned? (negative : Bool) (text : List Char) : Option Numeral :=
  let word := text.map Char.toLower
  if word = ['i', 'n', 'f'] ∨ word = ['i', 'n', 'f', 'i', 'n', 'i', 't', 'y'] then
    some (.infinite negative)
  else if word = ['n', 'a', 'n'] then some (.notANumber negative)
  else (decimal? text).map (.finite negative)

/-- Reads a whole text as a numeral. -/
def read? : List Char → Option Numeral
  | '+' :: rest => unsigned? false rest
  | '-' :: rest => unsigned? true rest
  | rest => unsigned? false rest

/-! ## Value -/

/-- The binary64 number nearest to what a numeral says. -/
def toBinary64 : Numeral → Binary64
  | .infinite negative => Binary64.infinity negative
  | .notANumber negative => Binary64.nan negative
  | .finite negative value => value.toBinary64 negative

end Numeral

/-- The binary64 number that a text writes, if the text is a numeral. -/
def Binary64.ofText? (text : List Char) : Option Binary64 :=
  (Numeral.read? text).map Numeral.toBinary64

end Lookout

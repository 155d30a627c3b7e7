/-
Lookout.Numeric.Digits — runs of ASCII digits, and the exponent part that
numerals and JSON numbers have in common.
-/

namespace Lookout

namespace Digits

/-- The number that a non-empty run of digits writes. -/
def number? (text : List Char) : Option Nat :=
  if !text.isEmpty && text.all Char.isDigit then some (Nat.ofDigitChars 10 text 0) else none

/-- The exponent part: nothing at all, or `e` or `E`, an optional sign, and digits. -/
def exponent? : List Char → Option Int
  | [] => some 0
  | mark :: rest =>
    if mark = 'e' ∨ mark = 'E' then
      match rest with
      | '+' :: digits => (number? digits).map fun n => (n : Int)
      | '-' :: digits => (number? digits).map fun n => -(n : Int)
      | digits => (number? digits).map fun n => (n : Int)
    else none

end Digits

end Lookout

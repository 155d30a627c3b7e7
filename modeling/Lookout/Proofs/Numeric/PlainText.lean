/-
Lookout.Proofs.Numeric.PlainText — the shortest plain text of a number reads
back as the number.

The plain text of a decimal number is a numeral of the same value
(`Decimal.exists_unsigned_plain`): its whole part and its fraction are the
quotient and the remainder by a power of ten, and zeros at the end of a
fraction count for nothing. The shortest decimal number rounds to the code for
which it was searched. So reading undoes writing (`ofText?_shortestText`), but
for NaNs, which do not show their sign and their payload.
-/
import Lookout.Proofs.Numeric.Decimal
import Lookout.Proofs.Numeric.Numeral

namespace Lookout

open Digits (IsRun)

namespace Decimal

/-! ## Fractions -/

/-- The value of the digits behind a point. -/
def fractionValue (text : List Char) : ℚ := (Nat.ofDigitChars 10 text 0 : ℕ) / 10 ^ text.length

theorem isRun_toDigits (n : Nat) : IsRun (Nat.toDigits 10 n) :=
  fun _ hc => Nat.isDigit_of_mem_toDigits (by decide) (by decide) hc

theorem isRun_padded (width n : Nat) : IsRun (padded width n) := by
  intro c hc
  rcases List.mem_append.mp hc with hc | hc
  · rw [(List.mem_replicate.mp hc).2]
    decide
  · exact isRun_toDigits n c hc

theorem exists_zeros (text : List Char) :
    ∃ zeros, text = dropTrailingZeros text ++ List.replicate zeros '0' := by
  refine ⟨(text.reverse.takeWhile (· == '0')).length, ?_⟩
  have hzeros : text.reverse.takeWhile (· == '0') =
      List.replicate (text.reverse.takeWhile (· == '0')).length '0' :=
    List.eq_replicate_of_mem fun c hc => by simpa using List.mem_takeWhile_imp hc
  rw [← List.reverse_replicate, ← hzeros, dropTrailingZeros, ← List.reverse_append,
    List.takeWhile_append_dropWhile, List.reverse_reverse]

theorem isRun_dropTrailingZeros {text : List Char} (h : IsRun text) :
    IsRun (dropTrailingZeros text) := by
  obtain ⟨zeros, htext⟩ := exists_zeros text
  intro c hc
  exact h c (htext ▸ List.mem_append_left _ hc)

theorem fractionValue_dropTrailingZeros (text : List Char) :
    fractionValue (dropTrailingZeros text) = fractionValue text := by
  obtain ⟨zeros, htext⟩ := exists_zeros text
  conv_rhs => rw [htext]
  simp only [fractionValue, Nat.ofDigitChars_append, Nat.ofDigitChars_replicate_zero,
    List.length_append, List.length_replicate]
  push_cast
  rw [pow_add]
  field_simp

theorem fractionValue_padded {width n : Nat} (hn : n < 10 ^ width) :
    fractionValue (padded width n) = n / 10 ^ width := by
  have hdigits : Nat.ofDigitChars 10 (padded width n) 0 = n := by
    rw [padded, Nat.ofDigitChars_append, Nat.ofDigitChars_replicate_zero, Nat.mul_zero,
      Nat.ofDigitChars_ten_toDigits]
  rcases Nat.eq_zero_or_pos width with rfl | hwidth
  · obtain rfl : n = 0 := by simpa using hn
    simp [fractionValue, hdigits]
  · have hlength : (padded width n).length = width := by
      have := (Nat.length_toDigits_le_iff (by decide) hwidth).mpr hn
      simp only [padded, List.length_append, List.length_replicate]
      omega
    rw [fractionValue, hdigits, hlength]

/-! ## Plain text -/

/-- What digits before and after a point write. -/
theorem value_of_digits (whole fraction : List Char) :
    value ⟨Nat.ofDigitChars 10 (whole ++ fraction) 0, 0 - fraction.length⟩ =
      (Nat.ofDigitChars 10 whole 0 : ℕ) + fractionValue fraction := by
  rw [value, fractionValue, Nat.ofDigitChars_append, Nat.ofDigitChars_eq_ofDigitChars_zero]
  simp only [zero_sub, zpow_neg, zpow_natCast]
  push_cast
  field_simp

/-- The number of places behind the point. -/
def places (x : Decimal) : Nat := (-x.scale).toNat

/-- The value in steps of the last place. -/
def count (x : Decimal) : Nat := x.digits * 10 ^ x.scale.toNat

def wholeDigits (x : Decimal) : List Char := Nat.toDigits 10 (x.count / 10 ^ x.places)

def fractionDigits (x : Decimal) : List Char :=
  dropTrailingZeros (padded x.places (x.digits % 10 ^ x.places))

theorem plain_eq (x : Decimal) : x.plain =
    if x.fractionDigits.isEmpty then x.wholeDigits else x.wholeDigits ++ '.' :: x.fractionDigits :=
  rfl

/-- With a positive scale there are no places, and otherwise nothing is scaled. -/
theorem digits_mod_places (x : Decimal) : x.digits % 10 ^ x.places = x.count % 10 ^ x.places := by
  rcases Nat.eq_zero_or_pos x.places with hzero | hpos
  · rw [hzero, Nat.pow_zero, Nat.mod_one, Nat.mod_one]
  · have hscale : x.scale.toNat = 0 := by
      unfold places at hpos
      omega
    rw [count, hscale, Nat.pow_zero, Nat.mul_one]

theorem value_plain (x : Decimal) :
    value ⟨Nat.ofDigitChars 10 (x.wholeDigits ++ x.fractionDigits) 0,
      0 - x.fractionDigits.length⟩ = x.value := by
  have hfraction : fractionValue x.fractionDigits =
      (x.count % 10 ^ x.places : ℕ) / 10 ^ x.places := by
    rw [fractionDigits, fractionValue_dropTrailingZeros, digits_mod_places,
      fractionValue_padded (Nat.mod_lt _ (by positivity))]
  have hdivision : (x.count : ℚ) =
      10 ^ x.places * (x.count / 10 ^ x.places : ℕ) + (x.count % 10 ^ x.places : ℕ) := by
    exact_mod_cast (Nat.div_add_mod x.count (10 ^ x.places)).symm
  have hvalue : x.value = x.count / 10 ^ x.places := by
    rw [value_eq_div, ← count, ← places]
    push_cast
    rfl
  rw [value_of_digits, hfraction, wholeDigits, Nat.ofDigitChars_ten_toDigits, hvalue, hdivision]
  field_simp

theorem mantissa_plain (x : Decimal) :
    Numeral.Mantissa x.wholeDigits x.fractionDigits x.plain := by
  have hwhole : IsRun x.wholeDigits := isRun_toDigits _
  have hne : x.wholeDigits ≠ [] := Nat.toDigits_ne_nil
  rw [plain_eq]
  split
  · next hempty =>
    rw [List.isEmpty_iff.mp hempty]
    exact .integer hwhole hne
  · exact .pointed hwhole (isRun_dropTrailingZeros (isRun_padded _ _)) (by simp [hne])

theorem exists_unsigned_plain (x : Decimal) :
    ∃ y : Decimal, y.value = x.value ∧
      ∀ negative, Numeral.Unsigned negative (.finite negative y) x.plain := by
  refine ⟨_, x.value_plain, ?_⟩
  intro negative
  have hwritten : Numeral.Unsigned negative _ (x.plain ++ []) := .finite x.mantissa_plain .absent
  rwa [List.append_nil] at hwritten

end Decimal

namespace Binary64

/-! ## Shortest text -/

/-- The number as it comes back from its text: a NaN loses its sign and its payload. -/
def canonical (x : Binary64) : Binary64 := if x.isNaN then nan false else x

theorem sign_signText (negative : Bool) : Numeral.Sign negative (signText negative) := by
  cases negative with
  | false => exact .none
  | true => exact .minus

theorem exists_written_shortestText (x : Binary64) :
    ∃ n, Numeral.Written n x.shortestText ∧ n.toBinary64 = x.canonical := by
  unfold shortestText canonical
  by_cases hnan : x.isNaN = true
  · rw [if_pos hnan, if_pos hnan]
    exact ⟨.notANumber false, .signed .none (.notANumber (by decide)), rfl⟩
  rw [if_neg hnan, if_neg hnan]
  by_cases hinfinite : x.isInfinite = true
  · rw [if_pos hinfinite]
    refine ⟨.infinite x.negative, .signed (sign_signText _) (.infinite (by decide)), ?_⟩
    have hmagnitude : x.magnitude = infinityMagnitude := by simpa [isInfinite] using hinfinite
    simp only [Numeral.toBinary64, infinity, ← hmagnitude]
  · rw [if_neg hinfinite]
    obtain ⟨y, hvalue, hwritten⟩ := (Decimal.shortest x.magnitude).exists_unsigned_plain
    refine ⟨.finite x.negative y, .signed (sign_signText _) (hwritten _), ?_⟩
    have hcode : x.magnitude ≤ infinityMagnitude := by simpa [isNaN] using hnan
    have hmagnitude : y.magnitude = x.magnitude :=
      (Decimal.magnitude_congr hvalue).trans (Decimal.magnitude_shortest hcode)
    simp only [Numeral.toBinary64, Decimal.toBinary64, hmagnitude]

/-- **Reading undoes writing**, up to the sign and the payload of a NaN. -/
theorem ofText?_shortestText (x : Binary64) : ofText? x.shortestText = some x.canonical := by
  obtain ⟨n, hwritten, hvalue⟩ := exists_written_shortestText x
  exact Numeral.ofText?_eq_some_iff.mpr ⟨n, hwritten, Numeral.roundsTo_iff.mpr hvalue⟩

theorem isNumeralChar_of_mem_shortestText {x : Binary64} {c : Char} (hc : c ∈ x.shortestText) :
    Numeral.isNumeralChar c = true := by
  obtain ⟨n, hwritten, -⟩ := exists_written_shortestText x
  exact hwritten.isNumeralChar c hc

/-! ## Canonical numbers -/

@[simp] theorem isNaN_canonical (x : Binary64) : x.canonical.isNaN = x.isNaN := by
  unfold canonical
  split
  · next h => rw [h]; decide
  · rfl

theorem canonical_of_not_isNaN {x : Binary64} (h : x.isNaN = false) : x.canonical = x := by
  simp [canonical, h]

theorem canonical_of_isNaN {x : Binary64} (h : x.isNaN = true) : x.canonical = nan false := by
  simp [canonical, h]

@[simp] theorem canonical_canonical (x : Binary64) : x.canonical.canonical = x.canonical := by
  by_cases h : x.isNaN = true
  · rw [canonical_of_isNaN h]
    decide
  · rw [canonical_of_not_isNaN (by simpa using h), canonical_of_not_isNaN (by simpa using h)]

/-- What does not come back is not written in the first place. -/
theorem shortestText_canonical (x : Binary64) : x.canonical.shortestText = x.shortestText := by
  by_cases h : x.isNaN = true
  · rw [shortestText, shortestText, isNaN_canonical, if_pos h, if_pos h]
  · rw [canonical_of_not_isNaN (by simpa using h)]

end Binary64

end Lookout

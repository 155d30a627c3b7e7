/-
Lookout.Proofs.Numeric.Decimal — decimal numbers are rounded correctly, and the
shortest decimal number of a code reads back as that code.

* `Decimal.magnitude_isNearest` — the code that the program computes for
  `digits · 10 ^ scale` is the nearest one, whatever the digits and the scale.
  So it depends on the value alone (`Decimal.magnitude_congr`).
* `Decimal.magnitude_shortest` — the shortest decimal number of a finite code
  rounds to it. A shortening is only taken if it does; without any, the exact
  value is left.
-/
import Lookout.Numeric.Decimal.Shortest
import Lookout.Proofs.Numeric.Rounding

namespace Lookout

open Binary64

namespace Decimal

/-! ## Value -/

/-- The exact value of a decimal number. -/
def value (x : Decimal) : ℚ := x.digits * 10 ^ x.scale

/-- The value as the quotient that the program rounds. -/
theorem value_eq_div (x : Decimal) :
    x.value = (x.digits * 10 ^ x.scale.toNat : ℕ) / (10 ^ (-x.scale).toNat : ℕ) := by
  have hscale : x.scale = (x.scale.toNat : ℤ) - ((-x.scale).toNat : ℤ) := by omega
  have hpow : (10 : ℚ) ^ x.scale = 10 ^ x.scale.toNat / 10 ^ (-x.scale).toNat := by
    conv_lhs => rw [hscale]
    rw [zpow_sub₀ (by norm_num), zpow_natCast, zpow_natCast]
  rw [value, hpow]
  push_cast
  rw [mul_div_assoc]

/-! ## Correct rounding -/

/-- Scales above 400 overflow, since `10 ^ 401` is more than the threshold. -/
theorem isNearest_of_large_scale {x : Decimal} (hdigits : x.digits ≠ 0) (hscale : 400 < x.scale) :
    IsNearest x.value infinityMagnitude := by
  rw [isNearest_infinityMagnitude_iff]
  have hone : (1 : ℚ) ≤ x.digits := by exact_mod_cast Nat.one_le_iff_ne_zero.mpr hdigits
  have hpow : (2 : ℚ) ^ (1024 : ℤ) ≤ 10 ^ x.scale :=
    calc (2 : ℚ) ^ (1024 : ℤ) ≤ 2 ^ (3 * x.scale) := zpow_le_zpow_right₀ (by norm_num) (by omega)
      _ = 8 ^ x.scale := by rw [zpow_mul]; norm_num
      _ ≤ 10 ^ x.scale := by
        rw [show x.scale = (x.scale.toNat : ℤ) by omega, zpow_natCast, zpow_natCast]
        exact pow_le_pow_left₀ (by norm_num) (by norm_num) _
  have htop : (2 : ℚ) ^ (1024 : ℤ) = 2 * 2 ^ (1023 : ℤ) := by
    rw [← zpow_one_add₀ two_ne_zero]
    rfl
  have hpos : (0 : ℚ) < 2 ^ (1023 : ℤ) := zpow_pos two_pos _
  calc (2 - 1 / 2 ^ 53) * (2 : ℚ) ^ (1023 : ℤ)
      ≤ 2 * 2 ^ (1023 : ℤ) := mul_le_mul_of_nonneg_right (by norm_num) hpos.le
    _ ≤ 10 ^ x.scale := htop ▸ hpow
    _ ≤ x.digits * 10 ^ x.scale :=
      le_mul_of_one_le_left (zpow_pos (by norm_num) _).le hone

/-- Scales that are more than 400 below the number of bits underflow: already
with powers of eight the value is less than half a unit. -/
theorem isNearest_of_small_scale {x : Decimal} (hscale : (x.digits.log2 : ℤ) + x.scale < -400) :
    IsNearest x.value 0 := by
  obtain ⟨n, hn⟩ : ∃ n : Nat, n = 1074 := ⟨_, rfl⟩
  have hsmall : 2 * (x.digits * unitsPerOne) < 10 ^ (-x.scale).toNat :=
    calc 2 * (x.digits * unitsPerOne)
        < 2 * (2 ^ (x.digits.log2 + 1) * unitsPerOne) := by
          have hunits : 0 < unitsPerOne := by exact_mod_cast cast_unitsPerOne_pos
          have hdigits : x.digits < 2 ^ (x.digits.log2 + 1) := Nat.lt_log2_self
          have := Nat.mul_lt_mul_of_pos_right hdigits hunits
          omega
      _ = 2 ^ (x.digits.log2 + 2 + n) := by rw [unitsPerOne_eq hn]; ring
      _ ≤ 2 ^ (3 * (-x.scale).toNat) := Nat.pow_le_pow_right Nat.two_pos (by omega)
      _ = 8 ^ (-x.scale).toNat := by rw [Nat.pow_mul]
      _ ≤ 10 ^ (-x.scale).toNat := Nat.pow_le_pow_left (by decide) _
  have hvalue : 2 * x.value < codeValue 0 + codeValue (0 + 1) := by
    rw [value_eq_div, codeValue_zero, codeValue_eq_units,
      show unitsOfMagnitude (0 + 1) = 1 by decide, zero_add, show x.scale.toNat = 0 by omega,
      ← mul_div_assoc, div_lt_div_iff₀ (by positivity) cast_unitsPerOne_pos, Nat.pow_zero,
      Nat.mul_one, mul_assoc, Nat.cast_one, one_mul]
    exact_mod_cast hsmall
  exact isNearest_of_neighbours (Nat.zero_le _) (fun _ => ⟨hvalue.le, fun _ => rfl⟩)
    fun h => absurd h (Nat.lt_irrefl 0)

theorem magnitude_isNearest (x : Decimal) : IsNearest x.value x.magnitude := by
  unfold magnitude
  split
  · next hdigits =>
    have hzero : x.value = codeValue 0 := by
      rw [value, hdigits, codeValue_zero, Nat.cast_zero, zero_mul]
    rw [hzero]
    exact isNearest_codeValue (Nat.zero_le _)
  · next hdigits =>
    split
    · exact isNearest_of_large_scale hdigits ‹_›
    · split
      · exact isNearest_of_small_scale ‹_›
      · have hden : 0 < 10 ^ (-x.scale).toNat := Nat.pow_pos (by decide)
        have hrounded := roundMagnitude_isNearest
          (x.digits * 10 ^ x.scale.toNat * unitsPerOne) hden
        rwa [Nat.cast_mul, mul_div_mul_right _ _ cast_unitsPerOne_pos.ne',
          ← value_eq_div] at hrounded

/-- Rounding depends on the value alone, not on how it is written. -/
theorem magnitude_congr {x y : Decimal} (h : x.value = y.value) : x.magnitude = y.magnitude :=
  x.magnitude_isNearest.unique (h ▸ y.magnitude_isNearest)

/-! ## Shortest decimal numbers -/

/-- A shortening is only taken if it reads back. -/
theorem magnitude_of_shortened? {code j : Nat} {x : Decimal} (h : shortened? code j = some x) :
    x.magnitude = code := by
  unfold shortened? at h
  dsimp only at h
  split at h
  · split at h
    · next hboth =>
      obtain rfl := Option.some.inj h
      exact hboth.1
    · next hlower _ =>
      obtain rfl := Option.some.inj h
      exact hlower
  · split at h
    · next hupper =>
      obtain rfl := Option.some.inj h
      exact hupper
    · exact absurd h (by simp)

/-- All digits of a code together are its exact value. -/
theorem value_exactDigits (code : Nat) :
    value ⟨exactDigits code, finestScale⟩ = codeValue code := by
  obtain ⟨n, hn⟩ : ∃ n : Nat, n = 1074 := ⟨_, rfl⟩
  have hfinest : finestScale = -(n : ℤ) := by rw [hn]; rfl
  have hten : (10 : ℚ) ^ n = 2 ^ n * 5 ^ n := by rw [← mul_pow]; norm_num
  rw [value, codeValue_eq_units, unitsPerOne_eq hn]
  dsimp only
  rw [exactDigits_eq hn, hfinest, zpow_neg, zpow_natCast, hten]
  push_cast
  field_simp

theorem shortestFrom_zero (code : Nat) :
    shortestFrom code 0 = ⟨exactDigits code, finestScale⟩ := rfl

theorem shortestFrom_succ (code j : Nat) :
    shortestFrom code (j + 1) = (shortened? code (j + 1)).getD (shortestFrom code j) := rfl

theorem magnitude_shortestFrom {code : Nat} (hcode : code ≤ infinityMagnitude) (j : Nat) :
    (shortestFrom code j).magnitude = code := by
  induction j with
  | zero =>
    have hexact := magnitude_isNearest ⟨exactDigits code, finestScale⟩
    rw [value_exactDigits] at hexact
    rw [shortestFrom_zero]
    exact hexact.unique (isNearest_codeValue hcode)
  | succ j ih =>
    rw [shortestFrom_succ]
    cases hshort : shortened? code (j + 1) with
    | none => exact ih
    | some short => exact magnitude_of_shortened? hshort

/-- **Shortest numbers read back.** -/
theorem magnitude_shortest {code : Nat} (hcode : code ≤ infinityMagnitude) :
    (shortest code).magnitude = code :=
  magnitude_shortestFrom hcode _

end Decimal

end Lookout

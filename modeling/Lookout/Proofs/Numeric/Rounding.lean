/-
Lookout.Proofs.Numeric.Rounding — `roundMagnitude` rounds to the nearest
binary64 number, ties to even.

* `codeValue`    — the value that the exponent field and the fraction field of
                   a magnitude code stand for, and `codeValue_eq_units`: it is
                   the number of units of 2^-1074 that the program counts with.
* `IsNearest v m` — `m` is the correct rounding of the value `v`: no code is
                   nearer to it, and of two that are equally near `m` is even.
* `IsNearest.unique` — there is at most one such code.
* `roundMagnitude_isNearest` — the program finds it, for every quotient.

Infinity takes part with the value 2^1024 that its code would have if the
exponents went on. So it is the nearest code from half a step above the
largest finite number on, as the standard has it
(`isNearest_infinityMagnitude_iff`).
-/
import Lookout.Numeric.Binary64.Rounding
import Mathlib.Algebra.Order.Field.Power
import Mathlib.Data.Rat.Cast.Order
import Mathlib.Order.Monotone.Basic
import Mathlib.Tactic.FieldSimp
import Mathlib.Tactic.Linarith
import Mathlib.Tactic.NormNum
import Mathlib.Tactic.Positivity
import Mathlib.Tactic.Ring

namespace Lookout

namespace Binary64

/-! ## Units of a code

A code is a step and a count: `step * 2 ^ 52 + count` stands for `count` steps
of `2 ^ step` units. A count has 53 bits, except that on the finest step it may
have fewer; one that has just outgrown them is the first of the next step. -/

theorem unitsOfMagnitude_step {step count : Nat} (hcount : count ≤ 2 ^ 53)
    (hstep : step = 0 ∨ 2 ^ 52 ≤ count) :
    unitsOfMagnitude (step * 2 ^ 52 + count) = count * 2 ^ step := by
  unfold unitsOfMagnitude
  by_cases hsmall : count < 2 ^ 52
  · obtain rfl : step = 0 := by omega
    rw [if_pos (by omega)]
    simp only [Nat.zero_mul, Nat.zero_add, Nat.pow_zero, Nat.mul_one]
    omega
  · by_cases hfull : count = 2 ^ 53
    · have hdiv : (step * 2 ^ 52 + count) / 2 ^ 52 = step + 2 := by omega
      have hmod : (step * 2 ^ 52 + count) % 2 ^ 52 = 0 := by omega
      rw [hdiv, hmod, if_neg (by omega), show step + 2 - 1 = step + 1 from rfl, Nat.pow_succ,
        hfull]
      omega
    · have hdiv : (step * 2 ^ 52 + count) / 2 ^ 52 = step + 1 := by omega
      have hmod : (step * 2 ^ 52 + count) % 2 ^ 52 = count - 2 ^ 52 := by omega
      rw [hdiv, hmod, if_neg (by omega), Nat.add_sub_cancel, Nat.add_sub_of_le (by omega)]

/-- Every code is a step and a count of at most 53 bits. -/
theorem exists_step (code : Nat) : ∃ step count, code = step * 2 ^ 52 + count ∧
    count < 2 ^ 53 ∧ (step = 0 ∨ 2 ^ 52 ≤ count) :=
  ⟨code / 2 ^ 52 - 1, code - (code / 2 ^ 52 - 1) * 2 ^ 52, by omega, by omega, by omega⟩

theorem unitsOfMagnitude_lt_succ (code : Nat) :
    unitsOfMagnitude code < unitsOfMagnitude (code + 1) := by
  obtain ⟨step, count, rfl, hcount, hstep⟩ := exists_step code
  rw [Nat.add_assoc, unitsOfMagnitude_step (by omega) hstep,
    unitsOfMagnitude_step (by omega) (by omega)]
  exact Nat.mul_lt_mul_of_pos_right (Nat.lt_succ_self count) (Nat.two_pow_pos step)

theorem unitsOfMagnitude_strictMono : StrictMono unitsOfMagnitude :=
  strictMono_nat_of_lt_succ unitsOfMagnitude_lt_succ

theorem cast_unitsPerOne_pos : (0 : ℚ) < unitsPerOne := by
  obtain ⟨n, hn⟩ : ∃ n : Nat, n = 1074 := ⟨_, rfl⟩
  rw [unitsPerOne_eq hn]
  positivity

/-! ## The value of a code -/

/-- The absolute value that a code stands for: with an empty exponent field the
fraction of `2 ^ -1022`, otherwise one and the fraction times the power of two
that the exponent field names. -/
def codeValue (code : Nat) : ℚ :=
  if code / 2 ^ 52 = 0 then ((code % 2 ^ 52 : ℕ) / 2 ^ 52) * 2 ^ (-1022 : ℤ)
  else (1 + (code % 2 ^ 52 : ℕ) / 2 ^ 52) * 2 ^ (((code / 2 ^ 52 : ℕ) : ℤ) - 1023)

theorem codeValue_eq_units (code : Nat) :
    codeValue code = unitsOfMagnitude code / unitsPerOne := by
  have hunits : (unitsPerOne : ℚ) = 2 ^ (1074 : ℤ) := by
    obtain ⟨n, hn⟩ : ∃ n : Nat, n = 1074 := ⟨_, rfl⟩
    rw [unitsPerOne_eq hn, Nat.cast_pow, Nat.cast_ofNat, ← zpow_natCast, hn]
    rfl
  unfold codeValue unitsOfMagnitude
  rw [hunits]
  split
  · rw [div_eq_mul_inv, div_eq_mul_inv, mul_assoc, ← zpow_neg,
      show ((2 : ℚ) ^ 52)⁻¹ = 2 ^ (-52 : ℤ) by norm_num, ← zpow_add₀ two_ne_zero,
      show (-52 : ℤ) + -1022 = -1074 by norm_num]
  · next hexp =>
    obtain ⟨e, he⟩ : ∃ e, code / 2 ^ 52 = e + 1 := Nat.exists_eq_succ_of_ne_zero hexp
    have hscale : (2 : ℚ) ^ (((e + 1 : ℕ) : ℤ) - 1023) =
        2 ^ 52 * 2 ^ e * (2 ^ (1074 : ℤ))⁻¹ := by
      rw [← zpow_neg, ← zpow_natCast, ← zpow_natCast, ← zpow_add₀ two_ne_zero,
        ← zpow_add₀ two_ne_zero]
      congr 1
      push_cast
      ring
    rw [he, hscale, Nat.add_sub_cancel, div_eq_mul_inv _ ((2 : ℚ) ^ (1074 : ℤ))]
    generalize ((2 : ℚ) ^ (1074 : ℤ))⁻¹ = unit
    push_cast
    ring

theorem codeValue_zero : codeValue 0 = 0 := by
  rw [codeValue_eq_units, show unitsOfMagnitude 0 = 0 by decide, Nat.cast_zero, zero_div]

theorem codeValue_strictMono : StrictMono codeValue := by
  intro a b hab
  rw [codeValue_eq_units, codeValue_eq_units, div_lt_div_iff_of_pos_right cast_unitsPerOne_pos]
  exact_mod_cast unitsOfMagnitude_strictMono hab

/-! ## The nearest code -/

/-- `code` is the correct rounding of the value `v`: it is as near to `v` as any
code up to that of infinity, and even if another is equally near. -/
structure IsNearest (v : ℚ) (code : Nat) : Prop where
  le_infinity : code ≤ infinityMagnitude
  nearest : ∀ other ≤ infinityMagnitude, |v - codeValue code| ≤ |v - codeValue other|
  even : ∀ other ≤ infinityMagnitude, other ≠ code →
    |v - codeValue other| = |v - codeValue code| → code % 2 = 0

/-- Two codes that are equally near lie on both sides of the value, so a code
between them would be nearer. Hence they are neighbours, and not both even. -/
theorem IsNearest.le {v : ℚ} {a b : Nat} (ha : IsNearest v a) (hb : IsNearest v b) : b ≤ a := by
  by_contra hab
  have hdist : |v - codeValue b| = |v - codeValue a| :=
    le_antisymm (hb.nearest a ha.le_infinity) (ha.nearest b hb.le_infinity)
  have haeven := ha.even b hb.le_infinity (by omega) hdist
  have hbeven := hb.even a ha.le_infinity (by omega) hdist.symm
  have hlow : codeValue a < codeValue (a + 1) := codeValue_strictMono (by omega)
  have hhigh : codeValue (a + 1) < codeValue b := codeValue_strictMono (by omega)
  have hmid : codeValue a + codeValue b = 2 * v := by
    rcases abs_eq_abs.mp hdist with h | h <;> linarith
  have hnear := ha.nearest (a + 1) (by have := hb.le_infinity; omega)
  rw [abs_of_pos (by linarith), le_abs'] at hnear
  rcases hnear with h | h <;> linarith

theorem IsNearest.unique {v : ℚ} {a b : Nat} (ha : IsNearest v a) (hb : IsNearest v b) :
    a = b :=
  Nat.le_antisymm (hb.le ha) (ha.le hb)

/-- A greater value is not rounded to a smaller code: otherwise both values would
lie in the middle between the two codes, and they would be one value. -/
theorem IsNearest.mono {v w : ℚ} {a b : Nat} (hvw : v ≤ w) (ha : IsNearest v a)
    (hb : IsNearest w b) : a ≤ b := by
  by_contra hab
  have hcodes : codeValue b < codeValue a := codeValue_strictMono (by omega)
  have habove : codeValue a + codeValue b ≤ 2 * v := by
    have hnear := ha.nearest b hb.le_infinity
    rcases abs_cases (v - codeValue a) with h | h <;>
      rcases abs_cases (v - codeValue b) with h' | h' <;> linarith
  have hbelow : 2 * w ≤ codeValue a + codeValue b := by
    have hnear := hb.nearest a ha.le_infinity
    rcases abs_cases (w - codeValue a) with h | h <;>
      rcases abs_cases (w - codeValue b) with h' | h' <;> linarith
  obtain rfl : v = w := by linarith
  exact hab (ha.unique hb).le

/-- The value of a code rounds to that code. -/
theorem isNearest_codeValue {code : Nat} (hcode : code ≤ infinityMagnitude) :
    IsNearest (codeValue code) code where
  le_infinity := hcode
  nearest other _ := by
    rw [sub_self, abs_zero]
    exact abs_nonneg _
  even other _ hne h := by
    rw [sub_self, abs_zero, abs_eq_zero, sub_eq_zero] at h
    exact absurd (codeValue_strictMono.injective h).symm hne

/-- It is enough to compare a code with its two neighbours. -/
theorem isNearest_of_neighbours {v : ℚ} {code : Nat} (hcode : code ≤ infinityMagnitude)
    (hup : code < infinityMagnitude → 2 * v ≤ codeValue code + codeValue (code + 1) ∧
      (2 * v = codeValue code + codeValue (code + 1) → code % 2 = 0))
    (hdown : 0 < code → codeValue (code - 1) + codeValue code ≤ 2 * v ∧
      (2 * v = codeValue (code - 1) + codeValue code → code % 2 = 0)) :
    IsNearest v code := by
  have hside : ∀ other ≤ infinityMagnitude, other ≠ code →
      |v - codeValue code| ≤ |v - codeValue other| ∧
      (|v - codeValue other| = |v - codeValue code| → code % 2 = 0) := by
    intro other hother hne
    rcases Nat.lt_or_gt_of_ne hne with hlt | hgt
    · obtain ⟨hle, heq⟩ := hdown (by omega)
      have hprev : codeValue other ≤ codeValue (code - 1) :=
        codeValue_strictMono.monotone (by omega)
      have hcur : codeValue (code - 1) < codeValue code := codeValue_strictMono (by omega)
      rw [abs_of_nonneg (by linarith : 0 ≤ v - codeValue other)]
      refine ⟨abs_le.mpr ⟨by linarith, by linarith⟩, fun h => heq ?_⟩
      rcases abs_cases (v - codeValue code) with ⟨habs, _⟩ | ⟨habs, _⟩ <;> linarith
    · obtain ⟨hle, heq⟩ := hup (by omega)
      have hnext : codeValue (code + 1) ≤ codeValue other :=
        codeValue_strictMono.monotone (by omega)
      have hcur : codeValue code < codeValue (code + 1) := codeValue_strictMono (by omega)
      rw [abs_of_nonpos (by linarith : v - codeValue other ≤ 0)]
      refine ⟨abs_le.mpr ⟨by linarith, by linarith⟩, fun h => heq ?_⟩
      rcases abs_cases (v - codeValue code) with ⟨habs, _⟩ | ⟨habs, _⟩ <;> linarith
  refine ⟨hcode, fun other hother => ?_, fun other hother hne => (hside other hother hne).2⟩
  by_cases hne : other = code
  · rw [hne]
  · exact (hside other hother hne).1

theorem codeValue_infinityMagnitude : codeValue infinityMagnitude = 2 * 2 ^ (1023 : ℤ) := by
  have hexp : infinityMagnitude / 2 ^ 52 = 2047 := by decide
  have hfrac : infinityMagnitude % 2 ^ 52 = 0 := by decide
  rw [codeValue, hexp, hfrac, if_neg (by decide), Nat.cast_zero, zero_div, add_zero, one_mul,
    ← zpow_one_add₀ two_ne_zero]
  rfl

theorem codeValue_before_infinityMagnitude :
    codeValue (infinityMagnitude - 1) = (2 - 1 / 2 ^ 52) * 2 ^ (1023 : ℤ) := by
  have hexp : (infinityMagnitude - 1) / 2 ^ 52 = 2046 := by decide
  have hfrac : (infinityMagnitude - 1) % 2 ^ 52 = 2 ^ 52 - 1 := by decide
  rw [codeValue, hexp, hfrac, if_neg (by decide), show ((2046 : ℕ) : ℤ) - 1023 = 1023 by norm_num]
  generalize (2 : ℚ) ^ (1023 : ℤ) = top
  norm_num

/-- Values overflow from half a step above the largest finite number on. -/
theorem isNearest_infinityMagnitude_iff {v : ℚ} :
    IsNearest v infinityMagnitude ↔ (2 - 1 / 2 ^ 53) * 2 ^ (1023 : ℤ) ≤ v := by
  have hlast := codeValue_before_infinityMagnitude
  have hinf := codeValue_infinityMagnitude
  have hpos : (0 : ℚ) < 2 ^ (1023 : ℤ) := zpow_pos two_pos _
  generalize (2 : ℚ) ^ (1023 : ℤ) = top at *
  constructor
  · intro h
    have hnear := h.nearest (infinityMagnitude - 1) (Nat.sub_le _ _)
    by_contra hlt
    rw [hlast, hinf, abs_sub_comm v, abs_of_pos (by linarith), le_abs'] at hnear
    rcases hnear with h | h <;> linarith
  · intro h
    refine isNearest_of_neighbours (Nat.le_refl _) (fun hlt => absurd hlt (Nat.lt_irrefl _))
      fun _ => ⟨?_, fun _ => by decide⟩
    rw [hlast, hinf]
    linarith

/-! ## Rounding a quotient to a whole number -/

theorem nearestEven_cases (n d : Nat) :
    (nearestEven n d = n / d ∧ 2 * (n % d) < d) ∨
      (nearestEven n d = n / d + 1 ∧ d < 2 * (n % d)) ∨
      ((nearestEven n d = n / d ∨ nearestEven n d = n / d + 1) ∧ 2 * (n % d) = d ∧
        nearestEven n d % 2 = 0) := by
  unfold nearestEven
  split
  · exact .inl ⟨rfl, by assumption⟩
  · split
    · exact .inr (.inl ⟨rfl, by assumption⟩)
    · exact .inr (.inr (by omega))

theorem nearestEven_bounds (n d : Nat) :
    n / d ≤ nearestEven n d ∧ nearestEven n d ≤ n / d + 1 := by
  rcases nearestEven_cases n d with ⟨h, -⟩ | ⟨h, -⟩ | ⟨h, -⟩ <;> omega

/-- The whole number is at most half a unit below the quotient, and even if it is that far. -/
theorem nearestEven_above (n : Nat) {d : Nat} (hd : 0 < d) :
    2 * n ≤ (2 * nearestEven n d + 1) * d ∧
      (2 * n = (2 * nearestEven n d + 1) * d → nearestEven n d % 2 = 0) := by
  have hdiv : n / d * d + n % d = n := Nat.div_add_mod' n d
  have hmod : n % d < d := Nat.mod_lt n hd
  rcases nearestEven_cases n d with ⟨h, hrest⟩ | ⟨h, hrest⟩ | ⟨h | h, hrest, heven⟩ <;>
    rw [h] at * <;> constructor <;> intros <;> grind

/-- The whole number is at most half a unit above the quotient, and even if it is that far. -/
theorem nearestEven_below (n d : Nat) :
    2 * nearestEven n d * d ≤ 2 * n + d ∧
      (2 * nearestEven n d * d = 2 * n + d → nearestEven n d % 2 = 0) := by
  have hdiv : n / d * d + n % d = n := Nat.div_add_mod' n d
  rcases nearestEven_cases n d with ⟨h, hrest⟩ | ⟨h, hrest⟩ | ⟨h | h, hrest, heven⟩ <;>
    rw [h] at * <;> constructor <;> intros <;> grind

/-! ## Rounding a quotient to a code -/

/-- On the step that the program chooses the quotient has 53 bits, or fewer on
the finest step. -/
theorem quotient_on_step (n d : Nat) :
    n / (d * 2 ^ ((n / d).log2 - 52)) < 2 ^ 53 ∧
      ((n / d).log2 - 52 = 0 ∨ 2 ^ 52 ≤ n / (d * 2 ^ ((n / d).log2 - 52))) := by
  rw [← Nat.div_div_eq_div_mul]
  generalize n / d = whole
  have hlt : whole < 2 ^ (whole.log2 + 1) := Nat.lt_log2_self
  by_cases hsmall : whole.log2 ≤ 52
  · rw [Nat.sub_eq_zero_of_le hsmall, Nat.pow_zero, Nat.div_one]
    exact ⟨Nat.lt_of_lt_of_le hlt (Nat.pow_le_pow_right Nat.two_pos (by omega)), .inl rfl⟩
  · obtain ⟨step, hstep⟩ : ∃ step, whole.log2 = 52 + step := ⟨whole.log2 - 52, by omega⟩
    have hne : whole ≠ 0 := by
      rintro rfl
      simp at hsmall
    have hle : 2 ^ whole.log2 ≤ whole := Nat.log2_self_le hne
    rw [hstep] at hlt hle
    rw [hstep, Nat.add_sub_cancel_left]
    constructor
    · rw [Nat.div_lt_iff_lt_mul (Nat.two_pow_pos step), ← Nat.pow_add]
      convert hlt using 2
      omega
    · right
      rw [Nat.le_div_iff_mul_le (Nat.two_pow_pos step), ← Nat.pow_add]
      exact hle

/-- The code nearest to `n / d` units if the codes went on beyond that of infinity. -/
def roundUnbounded (n d : Nat) : Nat :=
  ((n / d).log2 - 52) * 2 ^ 52 + nearestEven n (d * 2 ^ ((n / d).log2 - 52))

theorem roundMagnitude_eq_min (n d : Nat) :
    roundMagnitude n d = min (roundUnbounded n d) infinityMagnitude := rfl

/-- The next code is at least one step further, also where a new step begins. -/
theorem le_unitsOfMagnitude_succ {step count : Nat} (hcount : count ≤ 2 ^ 53)
    (hstep : step = 0 ∨ 2 ^ 52 ≤ count) :
    (count + 1) * 2 ^ step ≤ unitsOfMagnitude (step * 2 ^ 52 + count + 1) := by
  by_cases hfull : count = 2 ^ 53
  · have hcode : step * 2 ^ 52 + count + 1 = (step + 1) * 2 ^ 52 + (2 ^ 52 + 1) := by omega
    rw [hcode, unitsOfMagnitude_step (by omega) (by omega), hfull, Nat.pow_succ]
    omega
  · rw [Nat.add_assoc, unitsOfMagnitude_step (by omega) (by omega)]

/-- The quotient is at most half way to the next code, and the code even if it is half way. -/
theorem roundUnbounded_above (n : Nat) {d : Nat} (hd : 0 < d) :
    2 * n ≤ d * (unitsOfMagnitude (roundUnbounded n d) +
        unitsOfMagnitude (roundUnbounded n d + 1)) ∧
      (2 * n = d * (unitsOfMagnitude (roundUnbounded n d) +
        unitsOfMagnitude (roundUnbounded n d + 1)) → roundUnbounded n d % 2 = 0) := by
  obtain ⟨hlt, hstep⟩ := quotient_on_step n d
  unfold roundUnbounded
  generalize (n / d).log2 - 52 = step at *
  obtain ⟨hfloor, hceil⟩ := nearestEven_bounds n (d * 2 ^ step)
  obtain ⟨hle, heven⟩ := nearestEven_above n (Nat.mul_pos hd (Nat.two_pow_pos step))
  generalize nearestEven n (d * 2 ^ step) = count at *
  have hnext : (count + 1) * 2 ^ step ≤ unitsOfMagnitude (step * 2 ^ 52 + count + 1) :=
    le_unitsOfMagnitude_succ (by omega) (by omega)
  rw [unitsOfMagnitude_step (by omega) (by omega)]
  have hsum : (2 * count + 1) * (d * 2 ^ step) =
      d * (count * 2 ^ step + (count + 1) * 2 ^ step) := by ring
  have hgap := Nat.mul_le_mul_left d (Nat.add_le_add_left hnext (count * 2 ^ step))
  exact ⟨by omega, fun h => by have := heven (by omega); omega⟩

/-- The quotient is at least half way from the code before, and the code even if
it is half way. Where the code is the first of its step the quotient is not
below it at all, so the shorter step before it does no harm. -/
theorem roundUnbounded_below (n d : Nat) (hpos : 0 < roundUnbounded n d) :
    d * (unitsOfMagnitude (roundUnbounded n d - 1) +
        unitsOfMagnitude (roundUnbounded n d)) ≤ 2 * n ∧
      (2 * n = d * (unitsOfMagnitude (roundUnbounded n d - 1) +
        unitsOfMagnitude (roundUnbounded n d)) → roundUnbounded n d % 2 = 0) := by
  obtain ⟨hlt, hstep⟩ := quotient_on_step n d
  unfold roundUnbounded at *
  generalize (n / d).log2 - 52 = step at *
  obtain ⟨hfloor, hceil⟩ := nearestEven_bounds n (d * 2 ^ step)
  obtain ⟨hle, heven⟩ := nearestEven_below n (d * 2 ^ step)
  have hdiv := Nat.div_mul_le_self n (d * 2 ^ step)
  generalize nearestEven n (d * 2 ^ step) = count at *
  have hunits : unitsOfMagnitude (step * 2 ^ 52 + count) = count * 2 ^ step :=
    unitsOfMagnitude_step (by omega) (by omega)
  by_cases hfirst : step ≠ 0 ∧ count = 2 ^ 52
  · have hquot : count * (d * 2 ^ step) ≤ n :=
      Nat.le_trans (Nat.mul_le_mul_right _ (by omega)) hdiv
    have hd : 0 < d := by
      rcases Nat.eq_zero_or_pos d with rfl | hd
      · rw [Nat.zero_mul, Nat.div_zero] at hstep
        omega
      · exact hd
    have hprev : unitsOfMagnitude (step * 2 ^ 52 + count - 1) < count * 2 ^ step := by
      rw [← hunits]
      exact unitsOfMagnitude_strictMono (by omega)
    have hgap := Nat.mul_lt_mul_of_pos_left hprev hd
    have hsum : d * (count * 2 ^ step) = count * (d * 2 ^ step) := by ring
    rw [hunits, Nat.mul_add]
    omega
  · obtain ⟨before, rfl⟩ : ∃ before, count = before + 1 := ⟨count - 1, by omega⟩
    have hprev : unitsOfMagnitude (step * 2 ^ 52 + (before + 1) - 1) = before * 2 ^ step := by
      rw [← Nat.add_assoc, Nat.add_sub_cancel, unitsOfMagnitude_step (by omega) (by omega)]
    have hsum : 2 * (before + 1) * (d * 2 ^ step) =
        d * (before * 2 ^ step + (before + 1) * 2 ^ step) + d * 2 ^ step := by ring
    rw [hunits, hprev]
    exact ⟨by omega, fun h => by have := heven (by omega); omega⟩

/-- **Correct rounding.** The program rounds `n / d` units to the nearest code. -/
theorem roundMagnitude_isNearest (n : Nat) {d : Nat} (hd : 0 < d) :
    IsNearest (n / (d * unitsPerOne)) (roundMagnitude n d) := by
  have hdpos : (0 : ℚ) < d := by exact_mod_cast hd
  have hunits := cast_unitsPerOne_pos
  -- Sums of values compare with the quotient as sums of units compare with `2 * n / d`.
  have hsum : ∀ a b : Nat, codeValue a + codeValue b =
      (d * (unitsOfMagnitude a + unitsOfMagnitude b) : ℕ) / (d * unitsPerOne) := by
    intro a b
    rw [codeValue_eq_units, codeValue_eq_units]
    push_cast
    field_simp
  have htwo : 2 * ((n : ℚ) / (d * unitsPerOne)) = (2 * n : ℕ) / (d * unitsPerOne) := by
    push_cast
    ring
  have hscale : (0 : ℚ) < d * unitsPerOne := mul_pos hdpos hunits
  obtain ⟨habove, habove_even⟩ := roundUnbounded_above n hd
  have hbelow := roundUnbounded_below n d
  rw [roundMagnitude_eq_min]
  apply isNearest_of_neighbours (Nat.min_le_right _ _)
  · intro hlt
    have hmin : min (roundUnbounded n d) infinityMagnitude = roundUnbounded n d := by omega
    rw [hmin, hsum, htwo, div_le_div_iff_of_pos_right hscale, div_left_inj' hscale.ne']
    exact ⟨by exact_mod_cast habove, fun h => habove_even (by exact_mod_cast h)⟩
  · intro hpos
    rw [hsum, htwo, div_le_div_iff_of_pos_right hscale, div_left_inj' hscale.ne']
    by_cases hbound : roundUnbounded n d ≤ infinityMagnitude
    · rw [Nat.min_eq_left hbound] at hpos ⊢
      obtain ⟨hle, heven⟩ := hbelow hpos
      exact ⟨by exact_mod_cast hle, fun h => heven (by exact_mod_cast h)⟩
    · rw [Nat.min_eq_right (by omega)] at hpos ⊢
      obtain ⟨hle, -⟩ := hbelow (by omega)
      have hprev : unitsOfMagnitude (infinityMagnitude - 1) + unitsOfMagnitude infinityMagnitude <
          unitsOfMagnitude (roundUnbounded n d - 1) + unitsOfMagnitude (roundUnbounded n d) :=
        Nat.add_lt_add_of_le_of_lt (unitsOfMagnitude_strictMono.monotone (by omega))
          (unitsOfMagnitude_strictMono (by omega))
      have hgap := Nat.mul_lt_mul_of_pos_left hprev hd
      exact ⟨by exact_mod_cast (by omega), fun _ => by decide⟩

end Binary64

end Lookout

/-
Lookout.Proofs.Numeric.CorrectRounding — an operation on finite numbers gives
the exact result, rounded once.

* `Binary64.value` — the rational number that a number stands for.
* `IsRounding v x` — `x` is the correct rounding of `v`: no number is nearer, a
                     tie goes to the even code, and the sign is that of `v`.
* `IsRounding.mono`, `IsRounding.value_eq` — rounding keeps the order, and all
                     correct roundings of a value stand for one number.
* `isRounding_add`, `isRounding_sub`, `isRounding_mul`, `isRounding_div` — the
                     operations.
* `value_ofNat`    — natural numbers of up to 53 bits are not rounded at all.

The sign of a zero is not determined by the exact result, and `IsRounding`
leaves it open.
-/
import Lookout.Proofs.Numeric.Operations

namespace Lookout

namespace Binary64

/-! ## The value of a number -/

/-- The value of a number that is no NaN. Infinity has the value 2^1024 here, as
it has in `codeValue`: every finite number is below it. -/
def value (x : Binary64) : ℚ :=
  if x.negative then -codeValue x.magnitude else codeValue x.magnitude

section Value

variable {x y : Binary64}

theorem codeValue_nonneg (code : Nat) : 0 ≤ codeValue code := by
  rw [← codeValue_zero]
  exact codeValue_strictMono.monotone (Nat.zero_le code)

theorem value_of_not_negative (h : x.negative = false) : x.value = codeValue x.magnitude := by
  simp [value, h]

@[simp] theorem value_zero : (0 : Binary64).value = 0 := codeValue_zero

theorem abs_value (x : Binary64) : |x.value| = codeValue x.magnitude := by
  unfold value
  split <;> simp [abs_of_nonneg, codeValue_nonneg]

theorem value_eq_signedUnits (x : Binary64) : x.value = x.signedUnits / unitsPerOne := by
  unfold value signedUnits units
  rw [codeValue_eq_units]
  split
  · rw [Int.cast_neg, Int.cast_natCast, neg_div]
  · rw [Int.cast_natCast]

theorem value_le_iff : x.value ≤ y.value ↔ x.rank ≤ y.rank := by
  rw [value_eq_signedUnits, value_eq_signedUnits,
    div_le_div_iff_of_pos_right cast_unitsPerOne_pos, Int.cast_le, signedUnits_le_iff]

theorem value_lt_iff : x.value < y.value ↔ x.rank < y.rank := by
  rw [← not_le, value_le_iff, Int.not_le]

theorem le_iff_value (hx : x.isNaN = false) (hy : y.isNaN = false) :
    x ≤ y ↔ x.value ≤ y.value := by
  rw [value_le_iff]
  exact ⟨fun h => h.2.2, fun h => ⟨hx, hy, h⟩⟩

theorem lt_iff_value (hx : x.isNaN = false) (hy : y.isNaN = false) :
    x < y ↔ x.value < y.value := by
  rw [value_lt_iff]
  exact ⟨fun h => h.2.2, fun h => ⟨hx, hy, h⟩⟩

theorem value_neg (x : Binary64) : (neg x).value = -x.value := by
  rw [value_eq_signedUnits, value_eq_signedUnits, signedUnits_neg, Int.cast_neg, neg_div]

end Value

/-! ## Correct rounding -/

/-- `x` is the correct rounding of `v`. -/
structure IsRounding (v : ℚ) (x : Binary64) : Prop where
  nearest : IsNearest |v| x.magnitude
  negative : v < 0 → x.negative = true
  positive : 0 < v → x.negative = false

namespace IsRounding

variable {v w : ℚ} {x y : Binary64}

theorem isNaN (h : IsRounding v x) : x.isNaN = false :=
  decide_eq_false (Nat.not_lt.mpr h.nearest.le_infinity)

protected theorem neg (h : IsRounding v x) : IsRounding (-v) (neg x) where
  nearest := by
    rw [abs_neg]
    exact h.nearest
  negative hv := by simp [Binary64.neg, h.positive (by linarith)]
  positive hv := by simp [Binary64.neg, h.negative (by linarith)]

theorem value_eq_codeValue (h : IsRounding v x) (hv : 0 ≤ v) :
    x.value = codeValue x.magnitude := by
  rcases hv.eq_or_lt with rfl | hpos
  · have hzero : x.magnitude = 0 := by
      refine h.nearest.unique ?_
      rw [abs_zero, ← codeValue_zero]
      exact isNearest_codeValue (Nat.zero_le _)
    simp [value, hzero, codeValue_zero]
  · exact value_of_not_negative (h.positive hpos)

theorem value_nonneg (h : IsRounding v x) (hv : 0 ≤ v) : 0 ≤ x.value := by
  rw [h.value_eq_codeValue hv]
  exact codeValue_nonneg _

/-- Zero is at hand, so a value is not rounded up to more than twice as much. -/
theorem value_le_two_mul (h : IsRounding v x) (hv : 0 ≤ v) : x.value ≤ 2 * v := by
  have hnear := h.nearest.nearest 0 (Nat.zero_le _)
  rw [← h.value_eq_codeValue hv, abs_of_nonneg hv, codeValue_zero, sub_zero,
    abs_of_nonneg hv] at hnear
  have hbelow := (abs_le.mp hnear).1
  linarith

theorem mono_of_nonneg (hv : 0 ≤ v) (hvw : v ≤ w) (hx : IsRounding v x) (hy : IsRounding w y) :
    x.value ≤ y.value := by
  rw [hx.value_eq_codeValue hv, hy.value_eq_codeValue (hv.trans hvw)]
  exact codeValue_strictMono.monotone (hx.nearest.mono (abs_le_abs_of_nonneg hv hvw) hy.nearest)

/-- Rounding keeps the order. -/
theorem mono (hvw : v ≤ w) (hx : IsRounding v x) (hy : IsRounding w y) : x.value ≤ y.value := by
  rcases le_total 0 v with hv | hv
  · exact hx.mono_of_nonneg hv hvw hy
  · -- Below zero the opposite numbers are in the opposite order.
    have hneg_x := hx.neg
    rcases le_total 0 w with hw | hw
    · have hlow := hneg_x.value_nonneg (neg_nonneg.mpr hv)
      have hhigh := hy.value_nonneg hw
      rw [value_neg] at hlow
      linarith
    · have hle := hy.neg.mono_of_nonneg (neg_nonneg.mpr hw) (neg_le_neg hvw) hneg_x
      rwa [value_neg, value_neg, neg_le_neg_iff] at hle

/-- All correct roundings of a value stand for one number. -/
theorem value_eq (hx : IsRounding v x) (hy : IsRounding v y) : x.value = y.value :=
  le_antisymm (hx.mono le_rfl hy) (hy.mono le_rfl hx)

end IsRounding

/-- The value of a number is not rounded to another one. -/
theorem isRounding_value {x : Binary64} (hx : x.isNaN = false) : IsRounding x.value x where
  nearest := by
    rw [abs_value]
    exact isNearest_codeValue (by simpa [isNaN] using hx)
  negative hv := by
    by_contra hsign
    rw [value_of_not_negative (by simpa using hsign)] at hv
    exact absurd (codeValue_nonneg _) (not_le.mpr hv)
  positive hv := by
    by_contra hsign
    have hnonneg := codeValue_nonneg x.magnitude
    simp only [value, Bool.not_eq_false] at hv hsign
    rw [if_pos hsign] at hv
    linarith

/-! ## The operations -/

section Operations

variable {x y : Binary64} {v : ℚ}

theorem isRounding_nearest {negative : Bool} {n d : Nat} (hd : 0 < d)
    (habs : |v| = n / (d * unitsPerOne)) (hneg : v < 0 → negative = true)
    (hpos : 0 < v → negative = false) : IsRounding v (nearest negative n d) where
  nearest := by
    rw [habs]
    exact roundMagnitude_isNearest n hd
  negative := hneg
  positive := hpos

theorem isRounding_ofSignedUnits (zeroNegative : Bool) (u : Int) :
    IsRounding (u / unitsPerOne) (ofSignedUnits zeroNegative u) := by
  have hunits := cast_unitsPerOne_pos
  unfold ofSignedUnits
  split
  · next hu =>
    have hzero : (zero zeroNegative).value = (u : ℚ) / unitsPerOne := by
      simp only [hu, value, zero, codeValue_zero, neg_zero, ite_self, Int.cast_zero, zero_div]
    rw [← hzero]
    exact isRounding_value (decide_eq_false (Nat.not_lt_zero _))
  · next hu =>
    apply isRounding_nearest one_pos
    · rw [abs_div, abs_of_pos hunits, Nat.cast_natAbs, Int.cast_abs, Nat.cast_one, one_mul]
    · intro hneg
      rw [div_lt_iff₀ hunits, zero_mul, Int.cast_lt_zero] at hneg
      exact decide_eq_true hneg
    · intro hpos
      rw [div_pos_iff_of_pos_right hunits, Int.cast_pos] at hpos
      exact decide_eq_false (by omega)

theorem isRounding_add (hx : x.isFinite = true) (hy : y.isFinite = true) :
    IsRounding (x.value + y.value) (x + y) := by
  rw [add_eq hx hy, value_eq_signedUnits, value_eq_signedUnits, ← add_div, ← Int.cast_add]
  exact isRounding_ofSignedUnits _ _

theorem isRounding_sub (hx : x.isFinite = true) (hy : y.isFinite = true) :
    IsRounding (x.value - y.value) (x - y) := by
  rw [sub_eq_add, sub_eq_add_neg, ← value_neg]
  exact isRounding_add hx hy

/-- The sign of a product or a quotient. -/
theorem negative_of_mul_neg (h : x.value * y.value < 0) : (x.negative != y.negative) = true := by
  have hnonneg := mul_nonneg (codeValue_nonneg x.magnitude) (codeValue_nonneg y.magnitude)
  unfold value at h
  cases hx : x.negative <;> cases hy : y.negative <;> simp [hx, hy] at h ⊢ <;> linarith

theorem not_negative_of_mul_pos (h : 0 < x.value * y.value) :
    (x.negative != y.negative) = false := by
  have hnonneg := mul_nonneg (codeValue_nonneg x.magnitude) (codeValue_nonneg y.magnitude)
  unfold value at h
  cases hx : x.negative <;> cases hy : y.negative <;> simp [hx, hy] at h ⊢ <;> linarith

theorem isRounding_mul (hx : x.isFinite = true) (hy : y.isFinite = true) :
    IsRounding (x.value * y.value) (x * y) := by
  have hunits := cast_unitsPerOne_pos
  rw [mul_eq hx hy]
  apply isRounding_nearest unitsPerOne_pos _ negative_of_mul_neg not_negative_of_mul_pos
  rw [abs_mul, abs_value, abs_value, codeValue_eq_units, codeValue_eq_units, div_mul_div_comm,
    ← Nat.cast_mul]
  rfl

theorem div_eq (hx : x.isFinite = true) (hy : y.isFinite = true) (hzero : y.isZero = false) :
    x / y = nearest (x.negative != y.negative) (x.units * unitsPerOne) y.units := by
  change div x y = _
  unfold div
  rw [isNaN_of_isFinite hx, isNaN_of_isFinite hy, isInfinite_of_isFinite hx,
    isInfinite_of_isFinite hy, hzero]
  rfl

theorem units_pos (h : x.isZero = false) : 0 < x.units := by
  have hmagnitude : 0 < x.magnitude := by
    have hne : x.magnitude ≠ 0 := by simpa [isZero] using h
    omega
  rw [units, ← unitsOfMagnitude_zero]
  exact unitsOfMagnitude_strictMono hmagnitude

theorem isRounding_div (hx : x.isFinite = true) (hy : y.isFinite = true)
    (hzero : y.isZero = false) : IsRounding (x.value / y.value) (x / y) := by
  have hunits := cast_unitsPerOne_pos
  rw [div_eq hx hy hzero]
  apply isRounding_nearest (units_pos hzero)
  · rw [abs_div, abs_value, abs_value, codeValue_eq_units, codeValue_eq_units,
      div_div_div_cancel_right₀ hunits.ne', Nat.cast_mul, mul_div_mul_right _ _ hunits.ne']
    rfl
  · intro hneg
    exact negative_of_mul_neg (mul_neg_iff.mpr (div_neg_iff.mp hneg))
  · intro hpos
    exact not_negative_of_mul_pos (mul_pos_iff.mpr (div_pos_iff.mp hpos))

end Operations

/-! ## Natural numbers -/

theorem isRounding_ofNat (n : Nat) : IsRounding n (ofNat n) := by
  have hunits := cast_unitsPerOne_pos
  have hnonneg : (0 : ℚ) ≤ n := Nat.cast_nonneg n
  refine isRounding_nearest one_pos ?_ (fun hneg => absurd hneg (not_lt.mpr hnonneg)) fun _ => rfl
  rw [abs_of_nonneg hnonneg, Nat.cast_mul, Nat.cast_one, one_mul,
    mul_div_cancel_right₀ _ hunits.ne']

/-- A natural number of up to 53 bits is shifted up to 53 bits, and is a code of that many steps. -/
theorem exists_codeValue_eq {n : Nat} (hn : n < 2 ^ 53) :
    ∃ code ≤ infinityMagnitude, codeValue code = n := by
  have hunits := cast_unitsPerOne_pos
  rcases Nat.eq_zero_or_pos n with rfl | hpos
  · exact ⟨0, Nat.zero_le _, codeValue_zero⟩
  · have hlog : n.log2 < 53 := (Nat.log2_lt (by omega)).mpr hn
    obtain ⟨shift, hshift⟩ : ∃ shift, n.log2 + shift = 52 := ⟨52 - n.log2, by omega⟩
    have hlow : 2 ^ 52 ≤ n * 2 ^ shift := by
      rw [← hshift, Nat.pow_add]
      exact Nat.mul_le_mul_right _ (Nat.log2_self_le (by omega))
    have hhigh : n * 2 ^ shift ≤ 2 ^ 53 := by
      rw [show 53 = n.log2 + 1 + shift by omega, Nat.pow_add]
      exact Nat.mul_le_mul_right _ Nat.lt_log2_self.le
    refine ⟨(1074 - shift) * 2 ^ 52 + n * 2 ^ shift, ?_, ?_⟩
    · simp only [infinityMagnitude]
      omega
    · obtain ⟨step, hstep⟩ : ∃ step, step = 1074 - shift := ⟨_, rfl⟩
      have hone : unitsPerOne = 2 ^ (shift + step) := unitsPerOne_eq (by omega)
      rw [← hstep, codeValue_eq_units, unitsOfMagnitude_step hhigh (.inr hlow), Nat.mul_assoc,
        ← Nat.pow_add, ← hone, Nat.cast_mul, mul_div_cancel_right₀ _ hunits.ne']

/-- Natural numbers of up to 53 bits are exact. -/
theorem value_ofNat {n : Nat} (hn : n < 2 ^ 53) : (ofNat n).value = n := by
  obtain ⟨code, hcode, hvalue⟩ := exists_codeValue_eq hn
  have hround := isRounding_ofNat n
  have hnonneg : (0 : ℚ) ≤ n := Nat.cast_nonneg n
  have hnearest : IsNearest |(n : ℚ)| code := by
    rw [abs_of_nonneg hnonneg, ← hvalue]
    exact isNearest_codeValue hcode
  rw [hround.value_eq_codeValue hnonneg, hround.nearest.unique hnearest, hvalue]

end Binary64

end Lookout

/-
Lookout.Proofs.Numeric.Operations — sums, differences and products of finite
numbers are monotone, because rounding is.

The rank of a sum is the rounded sum of the values in units (`rank_add`), so it
grows with either term (`rank_add_mono`); the magnitude of a product is the
rounded product, so it grows with the magnitude of either factor
(`magnitude_mul_mono`). Nothing finite comes of anything that is not.
-/
import Lookout.Numeric.Binary64.Arithmetic
import Lookout.Proofs.Numeric.Order
import Lookout.Proofs.Numeric.Rounding

namespace Lookout

namespace Binary64

/-! ## Rounding -/

theorem roundMagnitude_mono {m n d : Nat} (hd : 0 < d) (h : m ≤ n) :
    roundMagnitude m d ≤ roundMagnitude n d := by
  refine (roundMagnitude_isNearest m hd).mono ?_ (roundMagnitude_isNearest n hd)
  have hscale : (0 : ℚ) ≤ d * unitsPerOne := mul_nonneg (Nat.cast_nonneg d) cast_unitsPerOne_pos.le
  exact div_le_div_of_nonneg_right (by exact_mod_cast h) hscale

/-- The value of a code is not rounded to another one. -/
theorem roundMagnitude_unitsOfMagnitude {code : Nat} (h : code ≤ infinityMagnitude) :
    roundMagnitude (unitsOfMagnitude code) 1 = code := by
  have hround := roundMagnitude_isNearest (unitsOfMagnitude code) one_pos
  rw [Nat.cast_one, one_mul, ← codeValue_eq_units] at hround
  exact hround.unique (isNearest_codeValue h)

/-- The rank of the number nearest to a whole number of units. -/
def roundedRank (u : Int) : Int :=
  if u < 0 then -(roundMagnitude u.natAbs 1 : Int) else roundMagnitude u.natAbs 1

theorem roundedRank_mono {u v : Int} (huv : u ≤ v) : roundedRank u ≤ roundedRank v := by
  unfold roundedRank
  split
  · split
    · have := roundMagnitude_mono one_pos (show v.natAbs ≤ u.natAbs by omega)
      omega
    · omega
  · rw [if_neg (by omega)]
    have := roundMagnitude_mono one_pos (show u.natAbs ≤ v.natAbs by omega)
    omega

/-! ## Units -/

@[simp] theorem unitsOfMagnitude_zero : unitsOfMagnitude 0 = 0 := by decide

theorem signedUnits_le_iff {x y : Binary64} : x.signedUnits ≤ y.signedUnits ↔ x.rank ≤ y.rank := by
  have hle := unitsOfMagnitude_strictMono.le_iff_le (a := x.magnitude) (b := y.magnitude)
  have hge := unitsOfMagnitude_strictMono.le_iff_le (a := y.magnitude) (b := x.magnitude)
  have hx := unitsOfMagnitude_strictMono.le_iff_le (a := x.magnitude) (b := 0)
  have hy := unitsOfMagnitude_strictMono.le_iff_le (a := y.magnitude) (b := 0)
  simp only [unitsOfMagnitude_zero] at hx hy
  unfold signedUnits rank units
  split <;> split <;> omega

theorem roundedRank_signedUnits {x : Binary64} (hx : x.isNaN = false) :
    roundedRank x.signedUnits = x.rank := by
  have hcode : x.magnitude ≤ infinityMagnitude := by simpa [isNaN] using hx
  have hround := roundMagnitude_unitsOfMagnitude hcode
  have hzero := unitsOfMagnitude_strictMono.le_iff_le (a := x.magnitude) (b := 0)
  rw [unitsOfMagnitude_zero] at hzero
  unfold roundedRank signedUnits rank units
  split <;> split <;> simp only [Int.natAbs_neg, Int.natAbs_natCast, hround] <;> omega

theorem rank_ofSignedUnits (zeroNegative : Bool) (u : Int) :
    (ofSignedUnits zeroNegative u).rank = roundedRank u := by
  unfold ofSignedUnits
  split
  · next h =>
    have hzero := roundMagnitude_unitsOfMagnitude (Nat.zero_le infinityMagnitude)
    rw [unitsOfMagnitude_zero] at hzero
    simp [h, rank, zero, roundedRank, hzero]
  · simp [rank, nearest, roundedRank]

/-! ## Sums and differences -/

section Sums

variable {x y z : Binary64}

theorem isInfinite_of_isFinite (h : x.isFinite = true) : x.isInfinite = false := by
  simp only [isFinite, isInfinite, decide_eq_true_eq, decide_eq_false_iff_not] at h ⊢
  omega

theorem isFinite_of_not (hnan : ¬x.isNaN = true) (hinfinite : ¬x.isInfinite = true) :
    x.isFinite = true := by
  simp only [isFinite, isNaN, isInfinite, decide_eq_true_eq] at *
  omega

theorem isFinite_neg (x : Binary64) : (neg x).isFinite = x.isFinite := rfl

theorem signedUnits_neg (x : Binary64) : (neg x).signedUnits = -x.signedUnits := by
  obtain ⟨negative, magnitude, hmagnitude⟩ := x
  cases negative <;> simp [signedUnits, neg, units]

/-- Nothing finite is the sum of anything that is not. -/
theorem isFinite_of_add (h : (x + y).isFinite = true) : x.isFinite = true ∧ y.isFinite = true := by
  change (add x y).isFinite = true at h
  unfold add at h
  split at h
  · exact absurd h (by decide)
  · next hnan =>
    rw [Bool.or_eq_true, not_or] at hnan
    split at h
    · next hx =>
      split at h
      · exact absurd h (by decide)
      · simp [isInfinite_of_isFinite h] at hx
    · next hx =>
      split at h
      · next hy => simp [isInfinite_of_isFinite h] at hy
      · next hy => exact ⟨isFinite_of_not hnan.1 hx, isFinite_of_not hnan.2 hy⟩

theorem add_eq (hx : x.isFinite = true) (hy : y.isFinite = true) :
    x + y = ofSignedUnits (x.negative && y.negative) (x.signedUnits + y.signedUnits) := by
  change add x y = _
  simp [add, isNaN_of_isFinite, isInfinite_of_isFinite, hx, hy]

theorem rank_add (hx : x.isFinite = true) (hy : y.isFinite = true) :
    (x + y).rank = roundedRank (x.signedUnits + y.signedUnits) := by
  rw [add_eq hx hy, rank_ofSignedUnits]

theorem rank_add_mono (hx : x.isFinite = true) (hy : y.isFinite = true) (hz : z.isFinite = true)
    (h : y.rank ≤ z.rank) : (x + y).rank ≤ (x + z).rank := by
  rw [rank_add hx hy, rank_add hx hz]
  have := signedUnits_le_iff.mpr h
  exact roundedRank_mono (by omega)

theorem rank_le_rank_add (hx : x.isFinite = true) (hy : y.isFinite = true) (h : 0 ≤ y.rank) :
    x.rank ≤ (x + y).rank := by
  have hunits : (0 : Binary64).signedUnits ≤ y.signedUnits := signedUnits_le_iff.mpr h
  change 0 ≤ y.signedUnits at hunits
  rw [rank_add hx hy, ← roundedRank_signedUnits (isNaN_of_isFinite hx)]
  exact roundedRank_mono (by omega)

theorem rank_add_le_rank (hx : x.isFinite = true) (hy : y.isFinite = true) (h : y.rank ≤ 0) :
    (x + y).rank ≤ x.rank := by
  have hunits : y.signedUnits ≤ (0 : Binary64).signedUnits := signedUnits_le_iff.mpr h
  change y.signedUnits ≤ 0 at hunits
  rw [rank_add hx hy, ← roundedRank_signedUnits (isNaN_of_isFinite hx)]
  exact roundedRank_mono (by omega)

theorem sub_eq_add (x y : Binary64) : x - y = x + neg y := rfl

theorem isFinite_of_sub (h : (x - y).isFinite = true) : x.isFinite = true ∧ y.isFinite = true := by
  rw [sub_eq_add] at h
  have hparts := isFinite_of_add h
  rwa [isFinite_neg] at hparts

theorem rank_sub_mono (hx : x.isFinite = true) (hy : y.isFinite = true) (hz : z.isFinite = true)
    (h : x.rank ≤ y.rank) : (x - z).rank ≤ (y - z).rank := by
  rw [← isFinite_neg] at hz
  rw [sub_eq_add, sub_eq_add, rank_add hx hz, rank_add hy hz]
  have := signedUnits_le_iff.mpr h
  exact roundedRank_mono (by omega)

/-- The distance from a smaller number has no sign, not even as a zero. -/
theorem negative_sub (hx : x.isFinite = true) (hy : y.isFinite = true) (h : y.rank < x.rank) :
    (x - y).negative = false := by
  have hunits : y.signedUnits < x.signedUnits :=
    Int.not_le.mp fun hle => by have := signedUnits_le_iff.mp hle; omega
  rw [← isFinite_neg] at hy
  rw [sub_eq_add, add_eq hx hy, signedUnits_neg, ofSignedUnits, if_neg (by omega)]
  exact decide_eq_false (by omega)

end Sums

/-! ## Products -/

section Products

variable {x y z : Binary64}

theorem unitsPerOne_pos : 0 < unitsPerOne := by exact_mod_cast cast_unitsPerOne_pos

/-- Nothing finite is the product of anything that is not. -/
theorem isFinite_of_mul (h : (x * y).isFinite = true) : x.isFinite = true ∧ y.isFinite = true := by
  change (mul x y).isFinite = true at h
  unfold mul at h
  dsimp only at h
  split at h
  · exact absurd h (by decide)
  · next hnan =>
    rw [Bool.or_eq_true, not_or] at hnan
    split at h
    · split at h
      · exact absurd h (by decide)
      · simp [infinity, isFinite] at h
    · next hinfinite =>
      rw [Bool.or_eq_true, not_or] at hinfinite
      exact ⟨isFinite_of_not hnan.1 hinfinite.1, isFinite_of_not hnan.2 hinfinite.2⟩

theorem mul_eq (hx : x.isFinite = true) (hy : y.isFinite = true) :
    x * y = nearest (x.negative != y.negative) (x.units * y.units) unitsPerOne := by
  change mul x y = _
  simp [mul, isNaN_of_isFinite, isInfinite_of_isFinite, hx, hy]

theorem magnitude_mul_mono (hx : x.isFinite = true) (hy : y.isFinite = true)
    (hz : z.isFinite = true) (h : y.magnitude ≤ z.magnitude) :
    (x * y).magnitude ≤ (x * z).magnitude := by
  rw [mul_eq hx hy, mul_eq hx hz]
  exact roundMagnitude_mono unitsPerOne_pos
    (Nat.mul_le_mul_left _ (unitsOfMagnitude_strictMono.monotone h))

/-- A multiple of a number lies between zero and a greater multiple of it. -/
theorem rank_mul_between (hx : x.isFinite = true) (hy : y.isFinite = true) (hz : z.isFinite = true)
    (hysign : y.negative = false) (hzsign : z.negative = false) (h : y.rank ≤ z.rank) :
    (0 ≤ (x * y).rank ∧ (x * y).rank ≤ (x * z).rank) ∨
      ((x * z).rank ≤ (x * y).rank ∧ (x * y).rank ≤ 0) := by
  have hmagnitude : y.magnitude ≤ z.magnitude := by simpa [rank, hysign, hzsign] using h
  have hmul := magnitude_mul_mono hx hy hz hmagnitude
  have hysign' : (x * y).negative = x.negative := by simp [mul_eq hx hy, nearest, hysign]
  have hzsign' : (x * z).negative = x.negative := by simp [mul_eq hx hz, nearest, hzsign]
  simp only [rank, hysign', hzsign']
  split <;> omega

/-- A line from its start on: what is computed before the end lies between the
start and the end, as soon as the end is finite. -/
theorem add_mul_between {start slope : Binary64} (hysign : y.negative = false)
    (hzsign : z.negative = false) (h : y.rank ≤ z.rank)
    (hend : (start + slope * z).isFinite = true) :
    (start ≤ start + slope * y ∧ start + slope * y ≤ start + slope * z) ∨
      (start + slope * z ≤ start + slope * y ∧ start + slope * y ≤ start) := by
  obtain ⟨hstart, hrise⟩ := isFinite_of_add hend
  obtain ⟨hslope, hz⟩ := isFinite_of_mul hrise
  have hzero : (0 : Binary64).isFinite = true := by decide
  have hy : y.isFinite = true := isFinite_of_rank_le hzero hz (rank_nonneg hysign) h
  rcases rank_mul_between hslope hy hz hysign hzsign h with ⟨hpos, hle⟩ | ⟨hge, hneg⟩
  · have hpart := isFinite_of_rank_le hzero hrise hpos hle
    have hlow := rank_le_rank_add hstart hpart hpos
    have hhigh := rank_add_mono hstart hpart hrise hle
    have hfinite := isFinite_of_rank_le hstart hend hlow hhigh
    exact .inl ⟨le_of_rank_le hstart hfinite hlow, le_of_rank_le hfinite hend hhigh⟩
  · have hpart := isFinite_of_rank_le hrise hzero hge hneg
    have hlow := rank_add_mono hstart hrise hpart hge
    have hhigh := rank_add_le_rank hstart hpart hneg
    have hfinite := isFinite_of_rank_le hend hstart hlow hhigh
    exact .inr ⟨le_of_rank_le hend hfinite hlow, le_of_rank_le hfinite hstart hhigh⟩

end Products

end Binary64

end Lookout

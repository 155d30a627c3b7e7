/-
Lookout.Proofs.Numeric.Order — how the comparisons of binary64 numbers fit
together.

The total order and `<` agree on numbers that are no NaN, up to the two zeros:
the total order tells them apart, and `==` does not. NaNs have a place in the
total order only, and no NaN equals anything.
-/
import Lookout.Numeric.Binary64.Basic

namespace Lookout

namespace Binary64

/-! ## Finite numbers -/

theorem isNaN_of_isFinite {x : Binary64} (h : x.isFinite = true) : x.isNaN = false := by
  simp only [isFinite, isNaN, decide_eq_true_eq, decide_eq_false_iff_not] at h ⊢
  omega

theorem natAbs_rank (x : Binary64) : x.rank.natAbs = x.magnitude := by
  unfold rank
  split <;> simp

theorem rank_nonneg {x : Binary64} (h : x.negative = false) : 0 ≤ x.rank := by
  simp [rank, h]

theorem isFinite_iff {x : Binary64} : x.isFinite = true ↔ x.rank.natAbs < infinityMagnitude := by
  rw [natAbs_rank, isFinite, decide_eq_true_iff]

/-! ## The total order -/

theorem totalKey_injective {x y : Binary64} (h : x.totalKey = y.totalKey) : x = y := by
  obtain ⟨xneg, xmag, _⟩ := x
  obtain ⟨yneg, ymag, _⟩ := y
  simp only [totalKey, mk.injEq] at h ⊢
  cases xneg <;> cases yneg <;> simp at h ⊢ <;> omega

theorem totalLE_iff {x y : Binary64} : x.totalLE y = true ↔ x.totalKey ≤ y.totalKey := by
  simp [totalLE]

/-- A number that comes first in the total order is not above the other one. -/
theorem rank_le_of_totalKey_le {x y : Binary64} (h : x.totalKey ≤ y.totalKey) :
    x.rank ≤ y.rank := by
  obtain ⟨xneg, xmag, _⟩ := x
  obtain ⟨yneg, ymag, _⟩ := y
  simp only [totalKey, rank] at h ⊢
  cases xneg <;> cases yneg <;> simp at h ⊢ <;> omega

/-- A NaN without a sign comes after all numbers. -/
theorem totalKey_lt_of_isNaN {x y : Binary64} (hx : x.isNaN = false) (hy : y.isNaN = true)
    (hsign : y.negative = false) : x.totalKey < y.totalKey := by
  have hx' : x.magnitude ≤ infinityMagnitude := by simpa [isNaN] using hx
  have hy' : infinityMagnitude < y.magnitude := by simpa [isNaN] using hy
  simp only [totalKey, hsign, Bool.false_eq_true, ↓reduceIte]
  split <;> omega

/-! ## Equality and the strict order -/

theorem beq_iff {x y : Binary64} :
    (x == y) = true ↔ x.isNaN = false ∧ y.isNaN = false ∧ x.rank = y.rank := by
  change (!x.isNaN && !y.isNaN && decide (x.rank = y.rank)) = true ↔ _
  simp [and_assoc]

theorem beq_comm (x y : Binary64) : (x == y) = (y == x) := by
  rw [Bool.eq_iff_iff, beq_iff, beq_iff]
  grind

theorem beq_trans {x y z : Binary64} (hxy : (x == y) = true) (hyz : (y == z) = true) :
    (x == z) = true := by
  rw [beq_iff] at *
  grind

theorem beq_eq_false_of_isNaN {x : Binary64} (h : x.isNaN = true) (y : Binary64) :
    (x == y) = false := by
  rw [← Bool.not_eq_true, beq_iff]
  simp [h]

/-- The total order tells apart what `==` does, off the NaNs. -/
theorem totalKey_ne_of_beq_eq_false {x y : Binary64} (hx : x.isNaN = false)
    (h : (x == y) = false) : x.totalKey ≠ y.totalKey := by
  intro heq
  obtain rfl := totalKey_injective heq
  simp [beq_iff.mpr ⟨hx, hx, rfl⟩] at h

/-- Off the NaNs, `<` is what the total order and `==` leave. -/
theorem lt_of_totalLE {x y : Binary64} (hx : x.isNaN = false) (hy : y.isNaN = false)
    (hle : x.totalLE y = true) (hne : (x == y) = false) : x < y := by
  have hrank : x.rank ≤ y.rank := rank_le_of_totalKey_le (totalLE_iff.mp hle)
  have hrank_ne : x.rank ≠ y.rank := by
    intro h
    simp [beq_iff.mpr ⟨hx, hy, h⟩] at hne
  exact ⟨hx, hy, by omega⟩

/-! ## The weak and the strict order -/

theorem not_le_of_isNaN {x : Binary64} (h : x.isNaN = true) (y : Binary64) : ¬x ≤ y := by
  intro hle
  obtain ⟨hx, -, -⟩ := hle
  simp [hx] at h

theorem not_le_of_lt {x y : Binary64} (h : y < x) : ¬x ≤ y := by
  intro hle
  have hrank : y.rank < x.rank := h.2.2
  have := hle.2.2
  omega

theorem not_le_iff {x y : Binary64} (hx : x.isNaN = false) (hy : y.isNaN = false) :
    ¬x ≤ y ↔ y < x := by
  refine ⟨fun h => ⟨hy, hx, ?_⟩, not_le_of_lt⟩
  have hrank : ¬x.rank ≤ y.rank := fun hrank => h ⟨hx, hy, hrank⟩
  omega

theorem le_refl {x : Binary64} (hx : x.isNaN = false) : x ≤ x := ⟨hx, hx, Int.le_refl _⟩

theorem le_of_lt {x y : Binary64} (h : x < y) : x ≤ y := ⟨h.1, h.2.1, Int.le_of_lt h.2.2⟩

theorem le_trans {x y z : Binary64} (hxy : x ≤ y) (hyz : y ≤ z) : x ≤ z :=
  ⟨hxy.1, hyz.2.1, Int.le_trans hxy.2.2 hyz.2.2⟩

theorem lt_of_lt_of_le {x y z : Binary64} (hxy : x < y) (hyz : y ≤ z) : x < z :=
  ⟨hxy.1, hyz.2.1, Int.lt_of_lt_of_le hxy.2.2 hyz.2.2⟩

/-- What lies between finite numbers is finite. -/
theorem isFinite_of_rank_le {low x high : Binary64} (hlow : low.isFinite = true)
    (hhigh : high.isFinite = true) (hle : low.rank ≤ x.rank) (hge : x.rank ≤ high.rank) :
    x.isFinite = true := by
  rw [isFinite_iff] at *
  omega

theorem le_of_rank_le {x y : Binary64} (hx : x.isFinite = true) (hy : y.isFinite = true)
    (h : x.rank ≤ y.rank) : x ≤ y :=
  ⟨isNaN_of_isFinite hx, isNaN_of_isFinite hy, h⟩

theorem lt_trans {x y z : Binary64} (hxy : x < y) (hyz : y < z) : x < z :=
  ⟨hxy.1, hyz.2.1, Int.lt_trans hxy.2.2 hyz.2.2⟩

/-- A number that is below another one comes before it in the total order. -/
theorem totalKey_lt_of_lt {x y : Binary64} (h : x < y) : x.totalKey < y.totalKey := by
  refine Int.not_le.mp fun hle => ?_
  have hrank : y.rank ≤ x.rank := rank_le_of_totalKey_le hle
  have : x.rank < y.rank := h.2.2
  omega

end Binary64

end Lookout

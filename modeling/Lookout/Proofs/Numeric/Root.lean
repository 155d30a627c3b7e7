/-
Lookout.Proofs.Numeric.Root — square roots, and quotients of them, are not
below zero.

The square root is the machine's own. Its model unpacks a number, takes the
root and packs the result, and only a zero keeps a negative sign on the way
(`notBelowZero_sqrt`). A quotient has the signs of its terms multiplied, so a
finite quotient of two roots is not below zero either (`NotBelowZero.div`), and
it is positive as soon as it does not equal zero (`NotBelowZero.pos_iff`).
-/
import Lookout.Numeric.Binary64.Arithmetic
import Lookout.Proofs.Numeric.Order

namespace Lookout

-- Powers of natural numbers are the ones of the core library, whatever else is imported.
attribute [local instance (high)] instPowNat

namespace Binary64

open Float.Model (Format UnpackedFloat)
open Float.Model.UnpackedFloat (Sign packComponents)

/-! ## Square roots -/

theorem packComponents_positive_le (exponent : BitVec 11) (fraction : BitVec 52) :
    (packComponents Format.binary64 .positive exponent fraction).toNat ≤ 2 ^ (63 : Nat) := by
  have hexponent := exponent.isLt
  have hfraction := fraction.isLt
  rw [packComponents, BitVec.toNat_append, BitVec.toNat_append,
    ← Nat.shiftLeft_add_eq_or_of_lt hfraction]
  simp [Sign.toBitVec, Nat.shiftLeft_eq]
  omega

/-- An unpacked number without a negative sign, unless it is a zero. -/
def Unsigned : UnpackedFloat → Prop
  | .infinity sign => sign = .positive
  | .finite sign _ _ _ => sign = .positive
  | _ => True

theorem unsigned_dite {c : Prop} [Decidable c] {u : c → UnpackedFloat} {v : ¬c → UnpackedFloat}
    (hu : ∀ h, Unsigned (u h)) (hv : ∀ h, Unsigned (v h)) : Unsigned (dite c u v) := by
  by_cases h : c
  · rw [dif_pos h]
    exact hu h
  · rw [dif_neg h]
    exact hv h

theorem unsigned_sqrt (u : UnpackedFloat) : Unsigned (u.sqrt Format.binary64) := by
  fun_cases UnpackedFloat.sqrt with
  | case2 => exact rfl
  | case6 => exact unsigned_dite (fun _ => trivial) (fun _ => rfl)
  | _ => trivial

/-- The sign bit is clear, or it is the only bit. -/
theorem pack_le_of_unsigned {u : UnpackedFloat} (h : Unsigned u) :
    (u.pack Format.binary64).toNat ≤ 2 ^ (63 : Nat) := by
  cases u with
  | notANumber => exact packComponents_positive_le _ _
  | infinity sign =>
    obtain rfl : sign = .positive := h
    exact packComponents_positive_le _ _
  | zero sign => cases sign <;> decide
  | finite sign m e hm =>
    obtain rfl : sign = .positive := h
    delta UnpackedFloat.pack
    dsimp only
    split
    · exact packComponents_positive_le _ _
    · split <;> exact packComponents_positive_le _ _

/-- A number that has a negative sign only if it is a zero. -/
def NotBelowZero (x : Binary64) : Prop := x.negative = true → x.magnitude = 0

theorem notBelowZero_sqrt (x : Binary64) : (Elementary.sqrt x).NotBelowZero := by
  have hbits : x.toFloat.sqrt.toBits.toNat ≤ 2 ^ 63 := pack_le_of_unsigned (unsigned_sqrt _)
  intro hnegative
  have hsign : 2 ^ 63 ≤ x.toFloat.sqrt.toBits.toNat := of_decide_eq_true hnegative
  change x.toFloat.sqrt.toBits.toNat % 2 ^ 63 = 0
  omega

/-! ## Quotients -/

section Quotients

variable (x y : Binary64)

/-- A quotient has the signs of its terms multiplied, unless it is none. -/
theorem div_isNaN_or_negative :
    (x / y).isNaN = true ∨ (x / y).negative = (x.negative != y.negative) := by
  change (div x y).isNaN = true ∨ (div x y).negative = _
  unfold div
  split
  · exact .inl rfl
  · split
    · split
      · exact .inl rfl
      · exact .inr rfl
    · split
      · exact .inr rfl
      · split
        · split
          · exact .inl rfl
          · exact .inr rfl
        · exact .inr rfl

theorem roundMagnitude_zero (d : Nat) : roundMagnitude 0 d = 0 := by
  simp [roundMagnitude, nearestEven]

variable {x y}

theorem zero_div_isNaN_or_zero (hx : x.magnitude = 0) (y : Binary64) :
    (x / y).isNaN = true ∨ (x / y).magnitude = 0 := by
  have hunits : x.units = 0 := by simp [units, hx, unitsOfMagnitude]
  have hinfinite : x.isInfinite = false := by simp [isInfinite, hx, infinityMagnitude]
  have hzero : x.isZero = true := by simp [isZero, hx]
  change (div x y).isNaN = true ∨ (div x y).magnitude = 0
  simp only [div, hinfinite, hzero, hunits, Nat.zero_mul, ↓reduceIte, Bool.false_eq_true]
  split
  · exact .inl rfl
  · split
    · exact .inr rfl
    · split
      · exact .inl rfl
      · exact .inr (roundMagnitude_zero _)

theorem not_isFinite_div_zero (x : Binary64) (hy : y.magnitude = 0) :
    (x / y).isFinite = false := by
  have hinfinite : y.isInfinite = false := by simp [isInfinite, hy, infinityMagnitude]
  have hzero : y.isZero = true := by simp [isZero, hy]
  change (div x y).isFinite = false
  simp only [div, hinfinite, hzero, ↓reduceIte, Bool.false_eq_true]
  split
  · rfl
  · split
    · rfl
    · split <;> rfl

theorem NotBelowZero.div (hx : x.NotBelowZero) (hy : y.NotBelowZero)
    (hfinite : (x / y).isFinite = true) : (x / y).NotBelowZero := by
  have hnumber : (x / y).isNaN = false := isNaN_of_isFinite hfinite
  intro hnegative
  have hsigns : (x.negative != y.negative) = true := by
    rcases div_isNaN_or_negative x y with hnan | hsign
    · simp [hnumber] at hnan
    · rw [← hsign, hnegative]
  -- only a zero is negative, and a divisor of zero leaves no finite quotient
  have hxnegative : x.negative = true := by
    cases hxsign : x.negative with
    | true => rfl
    | false =>
      have hynegative : y.negative = true := by simpa [hxsign] using hsigns
      simp [not_isFinite_div_zero x (hy hynegative)] at hfinite
  rcases zero_div_isNaN_or_zero (hx hxnegative) y with hnan | hzero
  · simp [hnumber] at hnan
  · exact hzero

theorem NotBelowZero.pos_iff (h : x.NotBelowZero) (hfinite : x.isFinite = true) :
    0 < x ↔ (x == 0) = false := by
  have hnumber : x.isNaN = false := isNaN_of_isFinite hfinite
  have hrank : 0 ≤ x.rank := by
    unfold rank
    split
    · next hnegative => simp [h hnegative]
    · omega
  have hzero : (0 : Binary64).isNaN = false ∧ (0 : Binary64).rank = 0 := ⟨rfl, rfl⟩
  rw [Bool.eq_false_iff, ne_eq, beq_iff]
  change (0 : Binary64).isNaN = false ∧ x.isNaN = false ∧ (0 : Binary64).rank < x.rank ↔ _
  simp only [hnumber, hzero, true_and]
  omega

end Quotients

end Binary64

end Lookout

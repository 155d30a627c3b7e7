/-
Lookout.Proofs.Curve.LeftSlope — over an ordered field, the slope that a curve
reports is its left derivative, at every query.

A short step to the left of a query passes no key, so it stays at the place of
the query (`exists_gap`), and at one place a curve is a straight line with the
slope of that place (`Location.value_sub`). This needs no order of the samples.
Where keys increase, the slope at a key is that of the segment that ends there.
-/
import Lookout.Proofs.Curve.Interpolation
import Lookout.Proofs.Curve.Location
import Mathlib.Tactic.NormNum

namespace Lookout

namespace SampledCurve

theorem Location.value_sub {K : Type} [Field K] (place : Location K) (x step : K) :
    place.value x - place.value (x - step) = place.slope * step := by
  cases place with
  | beforeFirst first => rw [Location.value, Location.value, Location.slope, sub_self, zero_mul]
  | between left right =>
    rw [Location.value, Location.value, Location.slope]
    ring
  | afterLast last => rw [Location.value, Location.value, Location.slope, sub_self, zero_mul]

variable {K : Type} [Field K] [LinearOrder K] {c : SampledCurve K} {left right : Sample K}
  {x step : K}

/-! ## Slopes at the keys -/

theorem derivative_right {i : Nat} (h : Increasing c.samples)
    (hsegment : Segment c.samples i left right) :
    c.derivative right.key = Sample.slope left right := by
  obtain ⟨before, behind, hsamples⟩ := hsegment.exists_append
  have hbelow : ∀ t ∈ before ++ [left], ¬right.key ≤ t.key := by
    rw [hsamples, List.append_cons] at h
    exact fun t ht => not_le.mpr (h.lt_of_append t ht)
  rw [derivative_eq, hsamples, locate?_append_of_between hbelow (le_refl _)]
  rfl

theorem derivative_minKey {first : K} (h : c.minKey? = some first) : c.derivative first = 0 := by
  obtain ⟨s, hs, rfl⟩ := Option.map_eq_some_iff.mp h
  obtain ⟨rest, hsamples⟩ := List.head?_eq_some_iff.mp hs
  rw [derivative_eq, hsamples, locate?, locate, if_pos (le_refl _)]
  rfl

theorem derivative_of_maxKey_lt {last : K} (hincreasing : Increasing c.samples)
    (h : c.maxKey? = some last) (hx : last < x) : c.derivative x = 0 := by
  obtain ⟨s, hs, rfl⟩ := Option.map_eq_some_iff.mp h
  obtain ⟨earlier, hsamples⟩ := List.getLast?_eq_some_iff.mp hs
  rw [hsamples] at hincreasing
  have hearlier : ∀ t ∈ earlier, ¬x ≤ t.key := fun t ht =>
    not_le.mpr ((hincreasing.lt_of_append t ht).trans hx)
  rw [derivative_eq, hsamples, locate?_append_of_not_le hearlier (not_le.mpr hx)]
  rfl

/-! ## The left derivative -/

variable [IsStrictOrderedRing K]

/-- Below a query there is a gap in which there is no key. -/
theorem exists_gap (samples : List (Sample K)) (x : K) :
    ∃ gap > 0, ∀ t ∈ samples, t.key < x → gap ≤ x - t.key := by
  induction samples with
  | nil => exact ⟨1, one_pos, by simp⟩
  | cons s rest ih =>
    obtain ⟨gap, hpos, hrest⟩ := ih
    by_cases hs : s.key < x
    · refine ⟨min gap (x - s.key), lt_min hpos (sub_pos.mpr hs), fun t ht hlt => ?_⟩
      rcases List.mem_cons.mp ht with rfl | ht
      · exact min_le_right _ _
      · exact (min_le_left _ _).trans (hrest t ht hlt)
    · refine ⟨gap, hpos, fun t ht hlt => ?_⟩
      rcases List.mem_cons.mp ht with rfl | ht
      · exact absurd hlt hs
      · exact hrest t ht hlt

theorem locate?_sub {gap : K} {samples : List (Sample K)}
    (hgap : ∀ t ∈ samples, t.key < x → gap ≤ x - t.key) (hstep : 0 ≤ step) (hlt : step < gap) :
    locate? (x - step) samples = locate? x samples := by
  refine locate?_congr fun t ht => ⟨fun hle => ?_, fun hle => ?_⟩
  · by_contra hbelow
    have := hgap t ht (not_le.mp hbelow)
    linarith
  · linarith

theorem exists_evaluate_sub_eq (c : SampledCurve K) (x : K) :
    ∃ gap > 0, ∀ step, 0 ≤ step → step < gap →
      c.evaluate x - c.evaluate (x - step) = c.derivative x * step := by
  obtain ⟨gap, hpos, hgap⟩ := exists_gap c.samples x
  refine ⟨gap, hpos, fun step hstep hlt => ?_⟩
  rw [evaluate_eq, evaluate_eq, derivative_eq, locate?_sub hgap hstep hlt]
  cases locate? x c.samples with
  | none => simp
  | some place => exact place.value_sub x step

/-- **The slope is the left derivative**, whatever samples have been added: at
every query the value falls by the slope times the step, for all short steps to
the left. So the slope at a key is that of the segment that ends there, zero at
the smallest key, and zero again right above the largest. -/
theorem addAll_derivative_eq_left_slope (emptyValue : K) (samples : List (Sample K)) :
    let c := (empty emptyValue).addAll samples
    (∀ x, ∃ gap > 0, ∀ step, 0 ≤ step → step < gap →
        c.evaluate x - c.evaluate (x - step) = c.derivative x * step) ∧
      (∀ i left right, Segment c.samples i left right →
        c.derivative right.key = Sample.slope left right) ∧
      (∀ first, c.minKey? = some first → c.derivative first = 0) ∧
      ∀ last, c.maxKey? = some last → ∀ x, last < x → c.derivative x = 0 := by
  intro c
  have hincreasing : Increasing c.samples := increasing_addAll samples List.Pairwise.nil
  exact ⟨exists_evaluate_sub_eq c, fun i left right => derivative_right hincreasing,
    fun first => derivative_minKey,
    fun last hlast x => derivative_of_maxKey_lt hincreasing hlast⟩

/-- At 10 the slope is that of the segment from 0 on, not the one of the next. -/
theorem addAll_derivative_eq_left_slope_ten :
    let c := (empty (0 : ℚ)).addAll [⟨10, 1⟩, ⟨0, 0⟩, ⟨20, 5⟩]
    Segment c.samples 1 ⟨0, 0⟩ ⟨10, 1⟩ ∧ c.derivative 10 = 1 / 10 ∧
      c.minKey? = some 0 ∧ c.derivative 0 = 0 ∧
      c.maxKey? = some 20 ∧ c.derivative 21 = 0 ∧
      ∃ step > 0, c.evaluate 10 - c.evaluate (10 - step) = 1 / 10 * step := by
  intro c
  have hsamples : c.samples = [⟨0, 0⟩, ⟨10, 1⟩, ⟨20, 5⟩] := by decide +kernel
  have hsegment : Segment c.samples 1 ⟨0, 0⟩ ⟨10, 1⟩ := by
    rw [hsamples]
    exact ⟨one_pos, rfl, rfl⟩
  have hmin : c.minKey? = some 0 := by rw [minKey?, hsamples]; rfl
  have hmax : c.maxKey? = some 20 := by rw [maxKey?, hsamples]; rfl
  obtain ⟨hleft, hkeys, hfirst, hlast⟩ :=
    addAll_derivative_eq_left_slope (0 : ℚ) [⟨10, 1⟩, ⟨0, 0⟩, ⟨20, 5⟩]
  have hten : c.derivative 10 = 1 / 10 :=
    (hkeys 1 ⟨0, 0⟩ ⟨10, 1⟩ hsegment).trans (by norm_num [Sample.slope])
  obtain ⟨gap, hpos, hgap⟩ := hleft 10
  have hhalf := hgap (gap / 2) (by linarith) (by linarith)
  refine ⟨hsegment, hten, hmin, hfirst 0 hmin, hmax, hlast 20 hmax 21 (by norm_num), gap / 2,
    by linarith, ?_⟩
  rw [← hten]
  exact hhalf

end SampledCurve

end Lookout

/-
Lookout.Proofs.Curve.Range — in binary64 arithmetic a curve keeps between two
bounds at every query as soon as it does at its keys.

On a segment the operations that give the value are monotone in the query, so
it lies between the value on the left and the one that comes out at the key on
the right (`Location.value_between`). That one need not be the value that is
stored there: every step of the line through two samples is rounded, and may
overflow (`probability_leaves_range`).
-/
import Lookout.Proofs.Curve.Domain
import Lookout.Proofs.Curve.Location
import Lookout.Proofs.Numeric.Operations

namespace Lookout

namespace SampledCurve

open Binary64 (isNaN_of_isFinite)

variable {c : SampledCurve Binary64} {left right : Sample Binary64} {query low high : Binary64}

/-! ## Segments -/

/-- The part of a run that lies before a query is a number from zero on, and
not above the whole run. -/
theorem run_between (hkey : left.key.isFinite = true) (hend : right.key.isFinite = true)
    (hleft : left.key < query) (hright : query ≤ right.key) :
    (query - left.key).negative = false ∧ (right.key - left.key).negative = false ∧
      (query - left.key).rank ≤ (right.key - left.key).rank := by
  have hquery : query.isFinite = true :=
    Binary64.isFinite_of_rank_le hkey hend (Int.le_of_lt hleft.2.2) hright.2.2
  exact ⟨Binary64.negative_sub hquery hkey hleft.2.2,
    Binary64.negative_sub hend hkey (Binary64.lt_of_lt_of_le hleft hright).2.2,
    Binary64.rank_sub_mono hquery hend hkey hright.2.2⟩

/-- The line from a sample on, as it is computed, does not leave the range that
ends with its value at the key on the right, if that is finite at all. -/
theorem Location.value_between (hleft : left.key < query) (hright : query ≤ right.key)
    (hend : (value right.key (.between left right)).isFinite = true) :
    (left.value ≤ value query (.between left right) ∧
        value query (.between left right) ≤ value right.key (.between left right)) ∨
      (value right.key (.between left right) ≤ value query (.between left right) ∧
        value query (.between left right) ≤ left.value) := by
  -- whatever goes into a finite result is finite
  obtain ⟨hstart, hrise⟩ := Binary64.isFinite_of_add hend
  obtain ⟨hslope, hrun⟩ := Binary64.isFinite_of_mul hrise
  obtain ⟨hrightkey, hleftkey⟩ := Binary64.isFinite_of_sub hrun
  obtain ⟨hsign, hendsign, hle⟩ := run_between hleftkey hrightkey hleft hright
  exact Binary64.add_mul_between hsign hendsign hle hend

/-! ## Queries and keys -/

/-- A query has a value that is stored, or it is on a segment, like the key at
the right end of it. -/
theorem evaluate_eq_value_or_between (hkeys : ∀ s ∈ c.samples, s.key.isNaN = false)
    (hincreasing : Increasing c.samples) (hsamples : c.samples ≠ []) (query : Binary64) :
    (∃ s ∈ c.samples, c.evaluate query = s.value) ∨
      ∃ left ∈ c.samples, ∃ right ∈ c.samples, left.key < query ∧ query ≤ right.key ∧
        c.evaluate query = Location.value query (.between left right) ∧
        c.evaluate right.key = Location.value right.key (.between left right) := by
  rcases locate?_cases hkeys hincreasing hsamples query with
    ⟨s, hs, hplace⟩ | ⟨s, hs, hplace⟩ | ⟨i, left, right, hsegment, hleft, hright⟩
  · exact .inl ⟨s, hs, by rw [evaluate_eq, hplace]; rfl⟩
  · exact .inl ⟨s, hs, by rw [evaluate_eq, hplace]; rfl⟩
  · have hend : right.key ≤ right.key := Binary64.le_refl (hkeys right hsegment.right_mem)
    refine .inr ⟨left, hsegment.left_mem, right, hsegment.right_mem, hleft, hright, ?_, ?_⟩
    · rw [evaluate_eq, hsegment.locate?_eq hincreasing hleft hright]
      rfl
    · rw [evaluate_eq, hsegment.locate?_eq hincreasing (hsegment.key_lt hincreasing) hend]
      rfl

/-- Finite numbers, and with any two of them all that lies between. -/
structure Interval (P : Binary64 → Prop) : Prop where
  isFinite : ∀ y, P y → y.isFinite = true
  between : ∀ x y z, P x → P z → x ≤ y → y ≤ z → P y

/-- What the stored values and the values at the keys do not leave, no value leaves. -/
theorem Interval.evaluate {P : Binary64 → Prop} (h : Interval P)
    (hkeys : ∀ s ∈ c.samples, s.key.isNaN = false) (hincreasing : Increasing c.samples)
    (hsamples : c.samples ≠ []) (hvalues : ∀ s ∈ c.samples, P s.value)
    (hends : ∀ s ∈ c.samples, P (c.evaluate s.key)) (query : Binary64) :
    P (c.evaluate query) := by
  rcases evaluate_eq_value_or_between hkeys hincreasing hsamples query with
    ⟨s, hs, hvalue⟩ | ⟨left, hl, right, hr, hleft, hright, hvalue, hend⟩
  · rw [hvalue]
    exact hvalues s hs
  · have hstart := hvalues left hl
    have hstop := hends right hr
    rw [hend] at hstop
    rw [hvalue]
    rcases Location.value_between hleft hright (h.isFinite _ hstop) with
      ⟨hlow, hhigh⟩ | ⟨hlow, hhigh⟩
    · exact h.between _ _ _ hstart hstop hlow hhigh
    · exact h.between _ _ _ hstop hstart hlow hhigh

/-! ## Ranges -/

theorem interval_of_bounds (hlow : low.isFinite = true) (hhigh : high.isFinite = true) :
    Interval fun y => low ≤ y ∧ y ≤ high where
  isFinite _ h := Binary64.isFinite_of_rank_le hlow hhigh h.1.2.2 h.2.2.2
  between _ _ _ hx hz hxy hyz := ⟨Binary64.le_trans hx.1 hxy, Binary64.le_trans hyz hz.2⟩

/-- Not below the smallest stored value, nor above the largest. -/
def InRange (c : SampledCurve Binary64) (y : Binary64) : Prop :=
  (∃ s ∈ c.samples, s.value ≤ y) ∧ ∃ s ∈ c.samples, y ≤ s.value

instance (c : SampledCurve Binary64) (y : Binary64) : Decidable (c.InRange y) :=
  inferInstanceAs (Decidable (_ ∧ _))

theorem interval_inRange (hvalues : ∀ s ∈ c.samples, s.value.isFinite = true) :
    Interval c.InRange where
  isFinite y := by
    rintro ⟨⟨s, hs, hlow⟩, t, ht, hhigh⟩
    exact Binary64.isFinite_of_rank_le (hvalues s hs) (hvalues t ht) hlow.2.2 hhigh.2.2
  between x y z := by
    rintro ⟨⟨s, hs, hlow⟩, -⟩ ⟨-, t, ht, hhigh⟩ hxy hyz
    exact ⟨⟨s, hs, Binary64.le_trans hlow hxy⟩, t, ht, Binary64.le_trans hyz hhigh⟩

theorem inRange_value {s : Sample Binary64} (hs : s ∈ c.samples)
    (hvalue : s.value.isFinite = true) : c.InRange s.value :=
  have hrefl := Binary64.le_refl (isNaN_of_isFinite hvalue)
  ⟨⟨s, hs, hrefl⟩, s, hs, hrefl⟩

/-- **Values stay in range as soon as those at the keys do.** After any edits
that leave a sample, no NaN key and finite values only, every query, a NaN
included, has a finite value between the smallest and the largest stored one if
and only if every key has. In particular a probability is between 0 and 1 at
every distance, so neither NaN nor infinite, if and only if it is at the keys. -/
theorem run_evaluate_inRange_iff (emptyValue : Binary64) (edits : List Edit)
    (probabilityEdits : List DomainCurve.Edit) :
    let c := (empty emptyValue).run edits
    let p : DomainCurve .errorProbability := DomainCurve.run probabilityEdits
    ((∀ s ∈ c.samples, s.key.isNaN = false ∧ s.value.isFinite = true) → c.samples ≠ [] →
        ((∀ query, (c.evaluate query).isFinite = true ∧ c.InRange (c.evaluate query)) ↔
          ∀ s ∈ c.samples, c.InRange (c.evaluate s.key))) ∧
      ((∀ s ∈ p.curve.samples, s.key.isNaN = false ∧ 0 ≤ s.value ∧ s.value ≤ 1) →
        ((∀ distance, 0 ≤ p.probability distance ∧ p.probability distance ≤ 1) ↔
          ∀ s ∈ p.curve.samples, 0 ≤ p.probability s.key ∧ p.probability s.key ≤ 1)) := by
  intro c p
  constructor
  · intro hstored hsamples
    have hkeys : ∀ s ∈ c.samples, s.key.isNaN = false := fun s hs => (hstored s hs).1
    have hvalues : ∀ s ∈ c.samples, s.value.isFinite = true := fun s hs => (hstored s hs).2
    refine ⟨fun h s _ => (h s.key).2, fun hends query => ?_⟩
    have hrange : c.InRange (c.evaluate query) :=
      (interval_inRange hvalues).evaluate hkeys (increasing_run emptyValue edits hkeys) hsamples
        (fun s hs => inRange_value hs (hvalues s hs)) hends query
    exact ⟨(interval_inRange hvalues).isFinite _ hrange, hrange⟩
  · intro hstored
    have hkeys : ∀ s ∈ p.curve.samples, s.key.isNaN = false := fun s hs => (hstored s hs).1
    have hformed : p.WellFormed := DomainCurve.wellFormed_run probabilityEdits
    refine ⟨fun h s _ => h s.key, fun hends distance => ?_⟩
    by_cases hsamples : p.curve.samples = []
    · have hempty : p.probability distance = 0 := by
        rw [DomainCurve.probability, DomainCurve.evaluate, evaluate_eq, hsamples]
        exact hformed.emptyValue
      rw [hempty]
      decide +kernel
    · have hunit : Interval fun y => 0 ≤ y ∧ y ≤ 1 :=
        interval_of_bounds (by decide +kernel) (by decide +kernel)
      exact hunit.evaluate hkeys (hformed.ordered.increasing hkeys) hsamples
        (fun s hs => (hstored s hs).2) hends distance

/-- No value and no probability of the table `0,0;2,1` is out of range. -/
theorem run_evaluate_inRange_iff_two :
    let c := (empty 0).run [.parse "0,0;2,1".toList]
    let p : DomainCurve .errorProbability := DomainCurve.run [.parse "0,0;2,1".toList]
    (∀ s ∈ c.samples, s.key.isNaN = false ∧ s.value.isFinite = true) ∧ c.samples ≠ [] ∧
      (∀ query, (c.evaluate query).isFinite = true ∧ c.InRange (c.evaluate query)) ∧
      (∀ s ∈ p.curve.samples, s.key.isNaN = false ∧ 0 ≤ s.value ∧ s.value ≤ 1) ∧
      ∀ distance, 0 ≤ p.probability distance ∧ p.probability distance ≤ 1 := by
  intro c p
  have hstored : ∀ s ∈ c.samples, s.key.isNaN = false ∧ s.value.isFinite = true := by
    decide +kernel
  have hsamples : c.samples ≠ [] := by decide +kernel
  have hprobabilities : ∀ s ∈ p.curve.samples, s.key.isNaN = false ∧ 0 ≤ s.value ∧ s.value ≤ 1 := by
    decide +kernel
  obtain ⟨hvalue, hprobability⟩ := run_evaluate_inRange_iff 0 [.parse "0,0;2,1".toList]
    [.parse "0,0;2,1".toList]
  exact ⟨hstored, hsamples, (hvalue hstored hsamples).mpr (by decide +kernel), hprobabilities,
    (hprobability hprobabilities).mpr (by decide +kernel)⟩

/-- At a key that is stored with the probability 1, a curve gives more than 1
where the slope is rounded up, an infinity where it overflows, and a NaN where
the distance of the keys does. -/
theorem probability_leaves_range :
    let rounded : DomainCurve .errorProbability := DomainCurve.run [.parse "0,0.1;50,1".toList]
    let steep : DomainCurve .errorProbability := DomainCurve.run [.parse "0,0;5e-324,1".toList]
    let wide : DomainCurve .errorProbability := DomainCurve.run [.parse "-1e308,0;1e308,1".toList]
    (∀ c ∈ [rounded, steep, wide], ∀ s ∈ c.curve.samples,
        s.key.isFinite = true ∧ 0 ≤ s.value ∧ s.value ≤ 1) ∧
      (∃ s ∈ rounded.curve.samples, s.value = 1 ∧ 1 < rounded.probability s.key) ∧
      (∃ s ∈ steep.curve.samples, s.value = 1 ∧ (steep.probability s.key).isInfinite = true) ∧
      ∃ s ∈ wide.curve.samples, s.value = 1 ∧ (wide.probability s.key).isNaN = true := by
  decide +kernel

end SampledCurve

end Lookout

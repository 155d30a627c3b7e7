/-
Lookout.Proofs.Curve.Bisection — the walk over the samples of a curve may be
replaced by any bisection.

Where keys increase, the samples whose key is below a query come first, and those
whose key is not come behind them (`le_key_iff`). The walk stops where the second
kind begins. A bisection probes samples in any order and rules out what lies on one
side of each (`Bisects`), so it has to end at the same index (`Bisects.eq`), and the
place of the query follows from this index alone.

A NaN is not below any key, so as a query it makes every probe fail, and the search
ends behind the last sample, as the walk does.
-/
import Lookout.Proofs.Curve.Location

namespace Lookout

/-! ## Bisections -/

/-- A bisection for the first index that passes a test, which is known to lie from
`low` to `high`. A probe that passes may rule out the indices above it, and one that
fails those up to it. The search ends when one index is left. -/
inductive Bisects (test : Nat → Bool) : Nat → Nat → Nat → Prop where
  | found (i : Nat) : Bisects test i i i
  | passed {low high i high' result : Nat} : low ≤ i → i < high → test i = true →
      i ≤ high' → high' ≤ high → Bisects test low high' result → Bisects test low high result
  | failed {low high i low' result : Nat} : low ≤ i → i < high → test i = false →
      low ≤ low' → low' ≤ i + 1 → Bisects test low' high result → Bisects test low high result

/-- Bisection by probes in the middle. -/
def bisect (test : Nat → Bool) (low high : Nat) : Nat :=
  if low < high then
    if test ((low + high) / 2) then bisect test low ((low + high) / 2)
    else bisect test ((low + high) / 2 + 1) high
  else low
termination_by high - low

theorem bisects_bisect {test : Nat → Bool} {low high : Nat} (h : low ≤ high) :
    Bisects test low high (bisect test low high) := by
  fun_induction bisect test low high with
  | case1 low high hlt hpass ih =>
    exact .passed (by omega) (by omega) hpass (by omega) (by omega) (ih (by omega))
  | case2 low high hlt hfail ih =>
    have hfail : test ((low + high) / 2) = false := by simpa using hfail
    exact .failed (by omega) (by omega) hfail (by omega) (by omega) (ih (by omega))
  | case3 low high hge =>
    obtain rfl : low = high := by omega
    exact .found low

/-- If the indices that pass are those from `k` on, every bisection ends at `k`. -/
theorem Bisects.eq {test : Nat → Bool} {size low high k result : Nat}
    (h : Bisects test low high result) (htest : ∀ i < size, test i = true ↔ k ≤ i)
    (hsize : high ≤ size) (hlow : low ≤ k) (hhigh : k ≤ high) : result = k := by
  induction h with
  | found i => omega
  | @passed low high i high' result _ hlt hpass hkeep hle _ ih =>
    have hk : k ≤ i := (htest i (by omega)).mp hpass
    exact ih (by omega) hlow (by omega)
  | @failed low high i low' result _ hlt hfail _ hkeep _ ih =>
    have hk : ¬k ≤ i := by
      rw [← htest i (by omega), hfail]
      simp
    exact ih hsize (by omega) hhigh

namespace SampledCurve

/-! ## Values at an index -/

section Index

variable {α : Type}

/-- Whether the key with an index is not below a query. -/
def reaches [LE α] [DecidableLE α] (query : α) (samples : List (Sample α)) (i : Nat) : Bool :=
  samples[i]?.any fun s => decide (query ≤ s.key)

/-- The value at a query in front of which there are `i` samples. -/
def evaluateAt [Add α] [Sub α] [Mul α] [Div α] (c : SampledCurve α) (query : α) (i : Nat) : α :=
  match c.samples with
  | [] => c.emptyValue
  | [only] => only.value
  | first :: rest => (Location.behind first rest i).value query

/-- The slope to the left of a query in front of which there are `i` samples. -/
def derivativeAt [Zero α] [Sub α] [Div α] (c : SampledCurve α) (i : Nat) : α :=
  match c.samples with
  | [] => 0
  | [_] => 0
  | first :: rest => (Location.behind first rest i).slope

/-- A curve takes the index at which the walk stops. -/
theorem evaluateAt_upperIndex [Zero α] [Add α] [Sub α] [Mul α] [Div α] [LE α] [DecidableLE α]
    (c : SampledCurve α) (query : α) :
    c.evaluateAt query (upperIndex query c.samples) = c.evaluate query ∧
      c.derivativeAt (upperIndex query c.samples) = c.derivative query := by
  obtain ⟨samples, emptyValue⟩ := c
  match samples with
  | [] => exact ⟨rfl, rfl⟩
  | [only] => exact ⟨rfl, rfl⟩
  | first :: second :: rest =>
    obtain ⟨hvalue, hslope⟩ := evaluate_of_locate (c := ⟨first :: second :: rest, emptyValue⟩) rfl
      (locate_eq query first (second :: rest))
    exact ⟨hvalue.symm, hslope.symm⟩

end Index

/-! ## The index that the walk finds -/

/-- The samples whose key is not below a query are those from where the walk stops on. -/
theorem le_key_iff {samples : List (Sample Binary64)} (hincreasing : Increasing samples)
    {i : Nat} {s : Sample Binary64} (hs : samples[i]? = some s) (query : Binary64) :
    query ≤ s.key ↔ upperIndex query samples ≤ i := by
  obtain ⟨hi, rfl⟩ := List.getElem?_eq_some_iff.mp hs
  constructor
  · intro hle
    refine Nat.not_lt.mp fun hlt => ?_
    have := List.not_of_lt_findIdx hlt
    simp [hle] at this
  · intro hstops
    have hlt : upperIndex query samples < samples.length := Nat.lt_of_le_of_lt hstops hi
    have hle : query ≤ samples[upperIndex query samples].key :=
      of_decide_eq_true (List.findIdx_getElem (w := hlt))
    rcases Nat.lt_or_eq_of_le hstops with hbefore | heq
    · have hkeys := List.pairwise_iff_getElem.mp hincreasing _ i hlt hi hbefore
      exact Binary64.le_trans hle (Binary64.le_of_lt hkeys)
    · simpa only [heq] using hle

theorem reaches_iff {samples : List (Sample Binary64)} (hincreasing : Increasing samples)
    (query : Binary64) :
    ∀ i < samples.length, reaches query samples i = true ↔ upperIndex query samples ≤ i := by
  intro i hi
  rw [← le_key_iff hincreasing (List.getElem?_eq_getElem hi)]
  simp [reaches, hi]

/-- **The walk over the samples may be replaced by any bisection.** After any edits
that leave no NaN among the keys, and for every query, the keys that are not below
the query are those from the index on at which the walk stops, so a bisection ends at
this index whichever samples it probes. The value and the slope at the query that
follow from the index it ends at are those of the curve. -/
theorem run_bisection_eq_walk (emptyValue : Binary64) (edits : List Edit)
    (hkeys : ∀ s ∈ ((empty emptyValue).run edits).samples, s.key.isNaN = false)
    (query : Binary64) :
    let c := (empty emptyValue).run edits
    upperIndex query c.samples ≤ c.size ∧
      (∀ i s, c.samples[i]? = some s → (query ≤ s.key ↔ upperIndex query c.samples ≤ i)) ∧
      Bisects (reaches query c.samples) 0 c.size (bisect (reaches query c.samples) 0 c.size) ∧
      ∀ i, Bisects (reaches query c.samples) 0 c.size i →
        i = upperIndex query c.samples ∧
        c.evaluateAt query i = c.evaluate query ∧ c.derivativeAt i = c.derivative query := by
  intro c
  have hincreasing : Increasing c.samples := increasing_run emptyValue edits hkeys
  have hsize : upperIndex query c.samples ≤ c.size := List.findIdx_le_length
  refine ⟨hsize, fun i s hs => le_key_iff hincreasing hs query, bisects_bisect (Nat.zero_le _), ?_⟩
  intro i hi
  obtain rfl : i = upperIndex query c.samples :=
    hi.eq (reaches_iff hincreasing query) (Nat.le_refl _) (Nat.zero_le _) hsize
  exact ⟨rfl, evaluateAt_upperIndex c query⟩

/-- A lopsided bisection finds 15 before the last of three samples, and bisection in
the middle finds no key that is not below a NaN. -/
theorem run_bisection_eq_walk_fifteen :
    let c := (empty 0).run
      [.add ⟨.ofNat 20, .ofNat 1⟩, .add ⟨.ofNat 0, .ofNat 3⟩, .add ⟨.ofNat 10, .ofNat 5⟩]
    (∀ s ∈ c.samples, s.key.isNaN = false) ∧
      Bisects (reaches (.ofNat 15) c.samples) 0 c.size 2 ∧
      c.evaluateAt (.ofNat 15) 2 = c.evaluate (.ofNat 15) ∧
      c.derivativeAt 2 = c.derivative (.ofNat 15) ∧
      bisect (reaches (.nan false) c.samples) 0 c.size = 3 := by
  intro c
  have hkeys : ∀ s ∈ c.samples, s.key.isNaN = false := by decide +kernel
  have htests : reaches (.ofNat 15) c.samples 0 = false ∧ reaches (.ofNat 15) c.samples 1 = false ∧
      reaches (.ofNat 15) c.samples 2 = true := by decide +kernel
  obtain ⟨h0, h1, h2⟩ := htests
  have hfrom1 : Bisects (reaches (.ofNat 15) c.samples) 1 2 2 :=
    .failed (by decide) (by decide) h1 (by decide) (by decide) (.found 2)
  have hfrom0 : Bisects (reaches (.ofNat 15) c.samples) 0 2 2 :=
    .failed (by decide) (by decide) h0 (by decide) (by decide) hfrom1
  have hbisects : Bisects (reaches (.ofNat 15) c.samples) 0 c.size 2 :=
    .passed (by decide) (by decide +kernel) h2 (by decide) (by decide +kernel) hfrom0
  have hnan : upperIndex (.nan false) c.samples = 3 := by decide +kernel
  obtain ⟨-, -, -, hfound⟩ := run_bisection_eq_walk 0 _ hkeys (.ofNat 15)
  obtain ⟨-, -, hmiddle, hnone⟩ := run_bisection_eq_walk 0 _ hkeys (.nan false)
  exact ⟨hkeys, hbisects, (hfound 2 hbisects).2.1, (hfound 2 hbisects).2.2,
    (hnone _ hmiddle).1.trans hnan⟩

end SampledCurve

end Lookout

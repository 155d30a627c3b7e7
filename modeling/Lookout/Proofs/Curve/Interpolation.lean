/-
Lookout.Proofs.Curve.Interpolation — curves over an ordered field, such as the
rationals, where nothing is rounded.

On every segment a curve is a straight line, and at a key the lines on both
sides meet in the value that is stored there. So bounds on how fast a function
grows that hold on either side of a key hold across it (`GrowsWithin.glue`),
and by induction over the samples the slopes of the segments bound the growth
over all queries (`evaluate_growsWithin`). That a curve is monotone where its
values are, and that it nowhere jumps, are choices of the two bounds.
-/
import Lookout.Proofs.Curve.Values
import Mathlib.Algebra.Order.Field.Basic
import Mathlib.Algebra.Order.Field.Rat
import Mathlib.Data.List.Chain
import Mathlib.Order.Interval.Set.Basic
import Mathlib.Order.Monotone.Defs
import Mathlib.Tactic.Linarith
import Mathlib.Tactic.Ring

namespace Lookout

/-- Exact keys stand in their own order. -/
instance {K : Type} [LinearOrder K] : KeyOrder K := ⟨fun a b => decide (a ≤ b)⟩

namespace SampledCurve

open Set (Iic Ici Icc univ)

/-! ## Adding samples with exact keys -/

section Keys

variable {K : Type} [LinearOrder K] {c : SampledCurve K} {s t : Sample K} {key : K}
  {rest samples : List (Sample K)}

theorem place_cons_of_le (h : t.key ≤ s.key) : place s (t :: rest) = t :: place s rest := by
  rw [place_cons_eq_if]
  exact if_pos (decide_eq_true h)

theorem place_cons_of_lt (h : s.key < t.key) : place s (t :: rest) = s :: t :: rest := by
  rw [place_cons_eq_if]
  exact if_neg (by simpa [KeyOrder.precedes] using h)

theorem Increasing.place (h : Increasing samples) (hnew : ∀ t ∈ samples, t.key ≠ s.key) :
    Increasing (place s samples) := by
  induction samples with
  | nil => exact List.pairwise_singleton _ _
  | cons t rest ih =>
    rcases lt_or_gt_of_ne (hnew t List.mem_cons_self) with hts | hst
    · rw [place_cons_of_le hts.le]
      have hrest := ih h.of_cons fun u hu => hnew u (List.mem_cons_of_mem _ hu)
      refine List.pairwise_cons.mpr ⟨fun u hu => ?_, hrest⟩
      rcases mem_place.mp hu with rfl | hu
      · exact hts
      · exact h.head_lt hu
    · rw [place_cons_of_lt hst]
      refine List.pairwise_cons.mpr ⟨fun u hu => ?_, h⟩
      rcases List.mem_cons.mp hu with rfl | hu
      · exact hst
      · exact hst.trans (h.head_lt hu)

theorem hasKey_iff : c.hasKey key = true ↔ ∃ t ∈ c.samples, t.key = key := by
  simp [hasKey]

theorem increasing_add (s : Sample K) (h : Increasing c.samples) :
    Increasing (c.add s).samples := by
  unfold add
  split
  · exact h
  · next hnew =>
    rw [hasKey_iff] at hnew
    exact h.place fun t ht hkey => hnew ⟨t, ht, hkey⟩

theorem increasing_addAll (samples : List (Sample K)) (h : Increasing c.samples) :
    Increasing (c.addAll samples).samples := by
  induction samples generalizing c with
  | nil => exact h
  | cons s rest ih => exact ih (increasing_add s h)

theorem mem_add : t ∈ (c.add s).samples ↔ t ∈ c.samples ∨ t = s ∧ ¬c.hasKey s.key = true := by
  unfold add
  split
  · next h => simp [h]
  · next h => simp [mem_place, h, or_comm]

theorem hasKey_add : (c.add s).hasKey key = true ↔ c.hasKey key = true ∨ s.key = key := by
  simp only [hasKey_iff, mem_add]
  grind

/-- After any additions a sample is stored if it was before, or if it is the
first one that was added with a key that was not stored before. -/
theorem mem_addAll : t ∈ (c.addAll samples).samples ↔
    t ∈ c.samples ∨ samples.find? (fun s => s.key == t.key) = some t ∧ ¬c.hasKey t.key = true := by
  induction samples generalizing c with
  | nil => simp [addAll]
  | cons s rest ih =>
    change t ∈ ((c.add s).addAll rest).samples ↔ _
    rw [ih, mem_add, hasKey_add, List.find?_cons]
    -- the first sample with the key of `t` is either `s` or among the rest
    by_cases hkey : s.key = t.key <;> grind

end Keys

/-! ## Growth -/

section Growth

variable {K : Type} [Field K] [LinearOrder K] {lo hi : K} {f g : K → K} {domain : Set K}

/-- Between any two points of a domain, a function grows at least `lo` times and
at most `hi` times as much as its argument. -/
def GrowsWithin (lo hi : K) (f : K → K) (domain : Set K) : Prop :=
  ∀ p ∈ domain, ∀ q ∈ domain, p ≤ q → lo * (q - p) ≤ f q - f p ∧ f q - f p ≤ hi * (q - p)

theorem GrowsWithin.congr (h : GrowsWithin lo hi f domain) (heq : ∀ p ∈ domain, g p = f p) :
    GrowsWithin lo hi g domain := by
  intro p hp q hq hpq
  rw [heq p hp, heq q hq]
  exact h p hp q hq hpq

/-- Bounds hold on every part of the domain. -/
theorem GrowsWithin.mono {part : Set K} (h : GrowsWithin lo hi f domain) (hpart : part ⊆ domain) :
    GrowsWithin lo hi f part :=
  fun p hp q hq hpq => h p (hpart hp) q (hpart hq) hpq

variable [IsStrictOrderedRing K]

/-- Bounds that hold on both sides of a point hold across it. -/
theorem GrowsWithin.glue {b : K} (hb : b ∈ domain) (hleft : GrowsWithin lo hi f (domain ∩ Iic b))
    (hright : GrowsWithin lo hi f (domain ∩ Ici b)) : GrowsWithin lo hi f domain := by
  intro p hp q hq hpq
  rcases le_total q b with hqb | hbq
  · exact hleft p ⟨hp, hpq.trans hqb⟩ q ⟨hq, hqb⟩ hpq
  rcases le_total b p with hbp | hpb
  · exact hright p ⟨hp, hbp⟩ q ⟨hq, hbq⟩ hpq
  · have hbefore := hleft p ⟨hp, hpb⟩ b ⟨hb, le_refl b⟩ hpb
    have hbehind := hright b ⟨hb, le_refl b⟩ q ⟨hq, hbq⟩ hbq
    constructor
    · linarith
    · linarith

theorem growsWithin_const (hlo : lo ≤ 0) (hhi : 0 ≤ hi) (a : K) :
    GrowsWithin lo hi (fun _ => a) domain := by
  intro p _ q _ hpq
  have := sub_nonneg.mpr hpq
  rw [sub_self]
  exact ⟨mul_nonpos_of_nonpos_of_nonneg hlo this, mul_nonneg hhi this⟩

theorem growsWithin_line {m : K} (hm : m ∈ Icc lo hi) (a b : K) :
    GrowsWithin lo hi (fun x => a + m * (x - b)) domain := by
  intro p _ q _ hpq
  have hrise : a + m * (q - b) - (a + m * (p - b)) = m * (q - p) := by ring
  have := sub_nonneg.mpr hpq
  rw [hrise]
  exact ⟨mul_le_mul_of_nonneg_right hm.1 this, mul_le_mul_of_nonneg_right hm.2 this⟩

theorem GrowsWithin.monotone (h : GrowsWithin 0 hi f univ) : Monotone f := by
  intro p q hpq
  have := (h p trivial q trivial hpq).1
  rwa [zero_mul, sub_nonneg] at this

theorem GrowsWithin.antitone (h : GrowsWithin lo 0 f univ) : Antitone f := by
  intro p q hpq
  have := (h p trivial q trivial hpq).2
  rwa [zero_mul, sub_nonpos] at this

theorem GrowsWithin.abs_sub_le {bound : K} (h : GrowsWithin (-bound) bound f univ) (p q : K) :
    |f p - f q| ≤ bound * |p - q| := by
  rcases le_total p q with hpq | hqp
  · obtain ⟨hlo, hhi⟩ := h p trivial q trivial hpq
    rw [abs_sub_comm, abs_sub_comm p, abs_of_nonneg (sub_nonneg.mpr hpq), abs_le]
    exact ⟨by linarith, hhi⟩
  · obtain ⟨hlo, hhi⟩ := h q trivial p trivial hqp
    rw [abs_of_nonneg (sub_nonneg.mpr hqp), abs_le]
    exact ⟨by linarith, hhi⟩

end Growth

/-! ## Slopes -/

section Slopes

variable {K : Type} [Field K] [LinearOrder K] {lo hi : K} {samples : List (Sample K)}

/-- All segments have a slope from `lo` to `hi`. -/
def SlopesWithin (lo hi : K) (samples : List (Sample K)) : Prop :=
  samples.IsChain fun s t => Sample.slope s t ∈ Icc lo hi

/-- The largest absolute slope of neighbouring samples, zero if there are none. -/
def steepest : List (Sample K) → K
  | left :: right :: rest => max |Sample.slope left right| (steepest (right :: rest))
  | _ => 0

theorem steepest_nonneg (samples : List (Sample K)) : 0 ≤ steepest samples := by
  fun_induction steepest samples with
  | case1 left right rest ih => exact ih.trans (le_max_right _ _)
  | case2 => exact le_refl 0

theorem SlopesWithin.mono {lo' hi' : K} (h : SlopesWithin lo hi samples) (hlo : lo' ≤ lo)
    (hhi : hi ≤ hi') : SlopesWithin lo' hi' samples :=
  h.imp fun _ _ hslope => ⟨hlo.trans hslope.1, hslope.2.trans hhi⟩

theorem SlopesWithin.of_pairs {lo' hi' : K} (h : SlopesWithin lo hi samples)
    (hpairs : samples.Pairwise fun s t =>
      Sample.slope s t ∈ Icc lo hi → Sample.slope s t ∈ Icc lo' hi') :
    SlopesWithin lo' hi' samples := by
  have hsteps := List.isChain_iff_getElem.mp hpairs.isChain
  exact List.isChain_iff_getElem.mpr fun i hi => hsteps i hi (List.isChain_iff_getElem.mp h i hi)

variable [IsStrictOrderedRing K]

theorem slopesWithin_steepest :
    ∀ samples : List (Sample K), SlopesWithin (-steepest samples) (steepest samples) samples
  | [] => List.isChain_nil
  | [_] => List.isChain_singleton _
  | left :: right :: rest => by
    have hhead : |Sample.slope left right| ≤ steepest (left :: right :: rest) := le_max_left _ _
    have htail : steepest (right :: rest) ≤ steepest (left :: right :: rest) := le_max_right _ _
    exact List.isChain_cons_cons.mpr
      ⟨abs_le.mp hhead, (slopesWithin_steepest (right :: rest)).mono (neg_le_neg htail) htail⟩

theorem SlopesWithin.of_rising (h : SlopesWithin lo hi samples) (hincreasing : Increasing samples)
    (hrising : samples.Pairwise fun s t => s.value ≤ t.value) : SlopesWithin 0 hi samples := by
  refine h.of_pairs ((hincreasing.and hrising).imp ?_)
  intro s t ⟨hkey, hvalue⟩ hslope
  exact ⟨div_nonneg (sub_nonneg.mpr hvalue) (sub_pos.mpr hkey).le, hslope.2⟩

theorem SlopesWithin.of_falling (h : SlopesWithin lo hi samples) (hincreasing : Increasing samples)
    (hfalling : samples.Pairwise fun s t => t.value ≤ s.value) : SlopesWithin lo 0 samples := by
  refine h.of_pairs ((hincreasing.and hfalling).imp ?_)
  intro s t ⟨hkey, hvalue⟩ hslope
  exact ⟨hslope.1, div_nonpos_of_nonpos_of_nonneg (sub_nonpos.mpr hvalue) (sub_pos.mpr hkey).le⟩

end Slopes

/-! ## Segments as straight lines -/

section Lines

variable {K : Type} [Field K] [LinearOrder K] {lo hi query : K} {c : SampledCurve K}
  {left right s : Sample K} {rest samples : List (Sample K)}

/-- The value of a curve at a query that is not below the key of `left`, when
only `rest` follows. -/
def valueAfter (left : Sample K) (rest : List (Sample K)) (query : K) : K :=
  (locateAfter query left rest).value query

@[simp] theorem valueAfter_nil : valueAfter left [] query = left.value := rfl

theorem valueAfter_cons_of_le (h : query ≤ right.key) : valueAfter left (right :: rest) query =
    left.value + Sample.slope left right * (query - left.key) := by
  rw [valueAfter, locateAfter, if_pos h, Location.value]

theorem valueAfter_cons_of_lt (h : right.key < query) :
    valueAfter left (right :: rest) query = valueAfter right rest query := by
  rw [valueAfter, locateAfter, if_neg (not_le.mpr h), valueAfter]

theorem evaluate_of_le_first (h : c.samples = s :: rest) (hquery : query ≤ s.key) :
    c.evaluate query = s.value := by
  cases rest with
  | nil => rw [evaluate, h]
  | cons second rest => exact (evaluate_of_locate h (if_pos hquery)).1

theorem evaluate_of_first_lt (h : c.samples = s :: rest) (hquery : s.key < query) :
    c.evaluate query = valueAfter s rest query := by
  cases rest with
  | nil => rw [evaluate, h, valueAfter_nil]
  | cons second rest => exact (evaluate_of_locate h (if_neg (not_le.mpr hquery))).1

theorem valueAfter_left (h : Increasing (left :: rest)) :
    valueAfter left rest left.key = left.value := by
  cases rest with
  | nil => rfl
  | cons right rest =>
    rw [valueAfter_cons_of_le (h.head_lt List.mem_cons_self).le, sub_self, mul_zero, add_zero]

theorem evaluate_of_first_le (h : c.samples = s :: rest) (hincreasing : Increasing c.samples)
    (hquery : s.key ≤ query) : c.evaluate query = valueAfter s rest query := by
  rcases hquery.eq_or_lt with rfl | hlt
  · rw [evaluate_of_le_first h (le_refl _), valueAfter_left (h ▸ hincreasing)]
  · exact evaluate_of_first_lt h hlt

variable [IsStrictOrderedRing K]

/-- The line through two samples ends in the second one. -/
theorem line_right (h : left.key < right.key) :
    left.value + Sample.slope left right * (right.key - left.key) = right.value := by
  rw [Sample.slope, div_mul_cancel₀ _ (sub_pos.mpr h).ne']
  ring

/-- Lines meet at the key between them, so from there on the segment to the left
plays no part. -/
theorem valueAfter_cons_of_ge (h : Increasing (left :: right :: rest))
    (hquery : right.key ≤ query) :
    valueAfter left (right :: rest) query = valueAfter right rest query := by
  rcases hquery.eq_or_lt with rfl | hlt
  · rw [valueAfter_cons_of_le (le_refl _), line_right (h.head_lt List.mem_cons_self),
      valueAfter_left h.of_cons]
  · exact valueAfter_cons_of_lt hlt

/-! ## Values at the keys -/

theorem valueAfter_of_mem (h : Increasing (left :: rest)) (hs : s ∈ rest) :
    valueAfter left rest s.key = s.value := by
  induction rest generalizing left with
  | nil => cases hs
  | cons right rest ih =>
    rcases List.mem_cons.mp hs with rfl | hs
    · rw [valueAfter_cons_of_le (le_refl _), line_right (h.head_lt List.mem_cons_self)]
    · rw [valueAfter_cons_of_lt (h.of_cons.head_lt hs), ih h.of_cons hs]

theorem evaluate_of_mem (h : Increasing c.samples) (hs : s ∈ c.samples) :
    c.evaluate s.key = s.value := by
  cases hsamples : c.samples with
  | nil => simp [hsamples] at hs
  | cons first rest =>
    rw [hsamples] at h hs
    rcases List.mem_cons.mp hs with rfl | hs
    · exact evaluate_of_le_first hsamples (le_refl _)
    · rw [evaluate_of_first_lt hsamples (h.head_lt hs), valueAfter_of_mem h hs]

/-! ## Growth between all queries -/

theorem valueAfter_growsWithin (hlo : lo ≤ 0) (hhi : 0 ≤ hi) (h : Increasing (left :: rest))
    (hslopes : SlopesWithin lo hi (left :: rest)) :
    GrowsWithin lo hi (valueAfter left rest) (Ici left.key) := by
  induction rest generalizing left with
  | nil => exact growsWithin_const hlo hhi left.value
  | cons right rest ih =>
    obtain ⟨hslope, hbehind⟩ := List.isChain_cons_cons.mp hslopes
    -- the segment up to `right` is one line; behind `right` the induction takes over
    refine GrowsWithin.glue (b := right.key) (h.head_lt List.mem_cons_self).le ?_ ?_
    · exact (growsWithin_line hslope left.value left.key).congr fun p hp =>
        valueAfter_cons_of_le hp.2
    · exact ((ih h.of_cons hbehind).mono Set.inter_subset_right).congr fun p hp =>
        valueAfter_cons_of_ge h hp.2

/-- Bounds on the slopes of the segments, and zero for the constant ends, bound
the growth between any two queries. -/
theorem evaluate_growsWithin (hlo : lo ≤ 0) (hhi : 0 ≤ hi) (h : Increasing c.samples)
    (hslopes : SlopesWithin lo hi c.samples) : GrowsWithin lo hi c.evaluate univ := by
  cases hsamples : c.samples with
  | nil =>
    refine (growsWithin_const hlo hhi c.emptyValue).congr fun p _ => ?_
    rw [evaluate, hsamples]
  | cons first rest =>
    have hafter := valueAfter_growsWithin hlo hhi (hsamples ▸ h) (hsamples ▸ hslopes)
    refine GrowsWithin.glue (b := first.key) trivial ?_ ?_
    · exact (growsWithin_const hlo hhi first.value).congr fun p hp =>
        evaluate_of_le_first hsamples hp.2
    · exact (hafter.mono Set.inter_subset_right).congr fun p hp =>
        evaluate_of_first_le hsamples h hp.2

/-- After any additions to an empty curve, in whatever order, the stored samples
are the first ones that were added with their keys, in the order of the keys.
The curve goes through all of them, rises or falls where their values do, on the
segments, across the keys and beyond the ends, and between any two queries its
value changes by no more than the steepest segment allows. -/
theorem addAll_evaluate_interpolates (emptyValue : K) (samples : List (Sample K)) :
    let c := (empty emptyValue).addAll samples
    Increasing c.samples ∧
      (∀ t, t ∈ c.samples ↔ samples.find? (fun s => s.key == t.key) = some t) ∧
      (∀ s ∈ c.samples, c.evaluate s.key = s.value) ∧
      ((c.samples.Pairwise fun s t => s.value ≤ t.value) → Monotone c.evaluate) ∧
      ((c.samples.Pairwise fun s t => t.value ≤ s.value) → Antitone c.evaluate) ∧
      ∀ p q, |c.evaluate p - c.evaluate q| ≤ steepest c.samples * |p - q| := by
  intro c
  have hincreasing : Increasing c.samples := increasing_addAll samples List.Pairwise.nil
  have hslopes := slopesWithin_steepest c.samples
  have hbound := steepest_nonneg c.samples
  have hbound' := neg_nonpos.mpr hbound
  refine ⟨hincreasing, fun t => ?_, fun s hs => evaluate_of_mem hincreasing hs,
    fun hrising => ?_, fun hfalling => ?_, ?_⟩
  · simp [c, mem_addAll, empty, hasKey]
  · exact (evaluate_growsWithin (le_refl 0) hbound hincreasing
      (hslopes.of_rising hincreasing hrising)).monotone
  · exact (evaluate_growsWithin hbound' (le_refl 0) hincreasing
      (hslopes.of_falling hincreasing hfalling)).antitone
  · exact (evaluate_growsWithin hbound' hbound hincreasing hslopes).abs_sub_le

/-- A curve that rises twice, first slowly, and the one that falls where it
rises; the second value for the key 10 is ignored. -/
theorem addAll_evaluate_interpolates_ten :
    let rising := (empty (0 : ℚ)).addAll [⟨10, 1⟩, ⟨0, 0⟩, ⟨10, 7⟩, ⟨20, 5⟩]
    let falling := (empty (0 : ℚ)).addAll [⟨10, -1⟩, ⟨0, 0⟩, ⟨10, -7⟩, ⟨20, -5⟩]
    rising.evaluate 10 = 1 ∧ Monotone rising.evaluate ∧ Antitone falling.evaluate ∧
      steepest rising.samples = 2 / 5 ∧
      ∀ p q, |rising.evaluate p - rising.evaluate q| ≤ 2 / 5 * |p - q| := by
  intro rising falling
  have hrising : rising.samples = [⟨0, 0⟩, ⟨10, 1⟩, ⟨20, 5⟩] := by decide +kernel
  have hfalling : falling.samples = [⟨0, 0⟩, ⟨10, -1⟩, ⟨20, -5⟩] := by decide +kernel
  have hsteepest : steepest rising.samples = 2 / 5 := by
    rw [hrising]
    decide +kernel
  obtain ⟨-, -, hkeys, hmonotone, -, hbound⟩ := addAll_evaluate_interpolates (0 : ℚ)
    [⟨10, 1⟩, ⟨0, 0⟩, ⟨10, 7⟩, ⟨20, 5⟩]
  obtain ⟨-, -, -, -, hantitone, -⟩ := addAll_evaluate_interpolates (0 : ℚ)
    [⟨10, -1⟩, ⟨0, 0⟩, ⟨10, -7⟩, ⟨20, -5⟩]
  refine ⟨hkeys ⟨10, 1⟩ ?_, hmonotone ?_, hantitone ?_, hsteepest, hsteepest ▸ hbound⟩
  · change _ ∈ rising.samples
    rw [hrising]
    exact List.mem_cons_of_mem _ List.mem_cons_self
  · change rising.samples.Pairwise _
    rw [hrising]
    decide +kernel
  · change falling.samples.Pairwise _
    rw [hfalling]
    decide +kernel

end Lines

end SampledCurve

end Lookout

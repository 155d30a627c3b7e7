/-
Lookout.Proofs.Curve.Values — the values of a curve at every query.

The walk that finds a query among the samples stops at the first sample whose
key is not below it (`upperIndex`), and the place of the query depends on the
index of that sample alone (`locate_eq`). Where keys increase, a query in the
segment that ends at some sample is not above any later key and above all
earlier ones, so at most one segment holds it, and it is the one at which the
walk stops (`Segment.upperIndex_eq`).

A NaN is not below any key, so as a query it is behind the last sample.
-/
import Lookout.Numeric.Binary64.Arithmetic
import Lookout.Proofs.Curve.Contents

namespace Lookout

namespace SampledCurve

/-! ## The walk over the samples -/

section Walk

variable {α : Type} [LE α] [DecidableLE α]

/-- The index of the first sample whose key is not below a query, or the number
of samples if there is none. -/
def upperIndex (query : α) (samples : List (Sample α)) : Nat :=
  samples.findIdx fun s => decide (query ≤ s.key)

theorem upperIndex_cons_of_le {query : α} {s : Sample α} (h : query ≤ s.key)
    (rest : List (Sample α)) : upperIndex query (s :: rest) = 0 := by
  simp [upperIndex, List.findIdx_cons, h]

theorem upperIndex_cons_of_not_le {query : α} {s : Sample α} (h : ¬query ≤ s.key)
    (rest : List (Sample α)) : upperIndex query (s :: rest) = upperIndex query rest + 1 := by
  simp [upperIndex, List.findIdx_cons, h]

/-- The place behind the first `i` of the samples `first :: rest`. -/
def Location.behind (first : Sample α) (rest : List (Sample α)) : Nat → Location α
  | 0 => .beforeFirst first
  | i + 1 =>
    match rest[i]? with
    | some right => .between ((first :: rest)[i]?.getD first) right
    | none => .afterLast ((first :: rest)[i]?.getD first)

theorem locateAfter_eq (query : α) (left : Sample α) (rest : List (Sample α)) :
    locateAfter query left rest = .behind left rest (upperIndex query rest + 1) := by
  induction rest generalizing left with
  | nil => rfl
  | cons right rest ih =>
    by_cases h : query ≤ right.key
    · simp [locateAfter, h, upperIndex_cons_of_le, Location.behind]
    · -- the walk stays within the samples, so no default is used
      have hinside : upperIndex query rest < (right :: rest).length :=
        Nat.lt_succ_of_le List.findIdx_le_length
      simp only [locateAfter, if_neg h, ih, upperIndex_cons_of_not_le h, Location.behind,
        List.getElem?_cons_succ, List.getElem?_eq_getElem hinside, Option.getD_some]

/-- The place of a query depends on where the walk stops only. -/
theorem locate_eq (query : α) (first : Sample α) (rest : List (Sample α)) :
    locate query first rest = .behind first rest (upperIndex query (first :: rest)) := by
  by_cases h : query ≤ first.key
  · rw [locate, if_pos h, upperIndex_cons_of_le h, Location.behind]
  · rw [locate, if_neg h, locateAfter_eq, upperIndex_cons_of_not_le h]

end Walk

/-! ## Segments -/

/-- Two neighbouring samples, of which the second has the index `i`. -/
structure Segment {α : Type} (samples : List (Sample α)) (i : Nat) (left right : Sample α) :
    Prop where
  pos : 0 < i
  left_eq : samples[i - 1]? = some left
  right_eq : samples[i]? = some right

theorem Segment.location {α : Type} {first left right : Sample α} {rest : List (Sample α)} {i : Nat}
    (h : Segment (first :: rest) i left right) :
    Location.behind first rest i = .between left right := by
  obtain ⟨j, rfl⟩ := Nat.exists_eq_add_one.mpr h.pos
  have hleft : (first :: rest)[j]? = some left := h.left_eq
  have hright : rest[j]? = some right := h.right_eq
  simp [Location.behind, hleft, hright]

/-- Every key is below all later ones. -/
def Increasing {α : Type} [LT α] (samples : List (Sample α)) : Prop :=
  samples.Pairwise fun s t => s.key < t.key

theorem Increasing.of_cons {α : Type} [LT α] {s : Sample α} {rest : List (Sample α)}
    (h : Increasing (s :: rest)) : Increasing rest :=
  List.Pairwise.of_cons h

theorem Increasing.head_lt {α : Type} [LT α] {s t : Sample α} {rest : List (Sample α)}
    (h : Increasing (s :: rest)) (ht : t ∈ rest) : s.key < t.key :=
  List.rel_of_pairwise_cons h ht

theorem Segment.left_mem {α : Type} {samples : List (Sample α)} {i : Nat} {left right : Sample α}
    (h : Segment samples i left right) : left ∈ samples :=
  List.mem_of_getElem? h.left_eq

theorem Segment.right_mem {α : Type} {samples : List (Sample α)} {i : Nat} {left right : Sample α}
    (h : Segment samples i left right) : right ∈ samples :=
  List.mem_of_getElem? h.right_eq

namespace Segment

variable {samples : List (Sample Binary64)} {i : Nat} {left right : Sample Binary64}
  {query : Binary64}

theorem key_lt (h : Segment samples i left right) (hincreasing : Increasing samples) :
    left.key < right.key := by
  obtain ⟨hleft, hleft_eq⟩ := List.getElem?_eq_some_iff.mp h.left_eq
  obtain ⟨hright, hright_eq⟩ := List.getElem?_eq_some_iff.mp h.right_eq
  have hpos := h.pos
  have := List.pairwise_iff_getElem.mp hincreasing (i - 1) i hleft hright (by omega)
  rwa [hleft_eq, hright_eq] at this

/-- The walk stops at the segment that holds the query. -/
theorem upperIndex_eq (h : Segment samples i left right) (hincreasing : Increasing samples)
    (hleft : left.key < query) (hright : query ≤ right.key) : upperIndex query samples = i := by
  obtain ⟨hi, hi_eq⟩ := List.getElem?_eq_some_iff.mp h.left_eq
  obtain ⟨hj, hj_eq⟩ := List.getElem?_eq_some_iff.mp h.right_eq
  refine (List.findIdx_eq hj).mpr ⟨by simpa [hj_eq] using hright, fun k hk => ?_⟩
  have hbelow : samples[k].key < query := by
    rcases Nat.lt_or_eq_of_le (Nat.le_sub_one_of_lt hk) with hlt | rfl
    · have := List.pairwise_iff_getElem.mp hincreasing k (i - 1) (by omega) hi hlt
      rw [hi_eq] at this
      exact Binary64.lt_trans this hleft
    · rwa [hi_eq]
  simpa using Binary64.not_le_of_lt hbelow

end Segment

/-- A query that is neither at most the first key nor above the last one is held
by the segment at which the walk stops. -/
theorem exists_segment {first last : Sample Binary64} {rest : List (Sample Binary64)}
    {query : Binary64} (hkeys : ∀ s ∈ first :: rest, s.key.isNaN = false)
    (hquery : query.isNaN = false) (hlast : last ∈ first :: rest) (hmin : ¬query ≤ first.key)
    (hmax : ¬last.key < query) :
    ∃ left right, Segment (first :: rest) (upperIndex query (first :: rest)) left right ∧
      left.key < query ∧ query ≤ right.key := by
  have hle : query ≤ last.key := by
    rwa [← Binary64.not_le_iff hquery (hkeys last hlast), Decidable.not_not] at hmax
  have hstops : upperIndex query (first :: rest) < (first :: rest).length :=
    List.findIdx_lt_length.mpr ⟨last, hlast, by simpa using hle⟩
  have hpos : upperIndex query (first :: rest) = upperIndex query rest + 1 :=
    upperIndex_cons_of_not_le hmin rest
  have hbefore : upperIndex query (first :: rest) - 1 < upperIndex query (first :: rest) := by omega
  have hleft := List.not_of_lt_findIdx hbefore
  have hright := List.findIdx_getElem (w := hstops)
  refine ⟨_, _, ⟨by omega, List.getElem?_eq_getElem (by omega), List.getElem?_eq_getElem hstops⟩,
    ?_, of_decide_eq_true hright⟩
  rw [← Binary64.not_le_iff hquery (hkeys _ (List.getElem_mem _))]
  simpa using hleft

/-- A query that is not at most any key is behind the last sample. -/
theorem locate_of_forall_not_le {first last : Sample Binary64} {rest : List (Sample Binary64)}
    {query : Binary64} (h : ∀ s ∈ first :: rest, ¬query ≤ s.key)
    (hlast : (first :: rest).getLast? = some last) : locate query first rest = .afterLast last := by
  have hindex : upperIndex query (first :: rest) = rest.length + 1 :=
    List.findIdx_eq_length.mpr fun s hs => by simpa using h s hs
  have hlast' : (first :: rest)[rest.length]? = some last := by
    rwa [List.getLast?_eq_getElem?] at hlast
  rw [locate_eq, hindex, Location.behind, List.getElem?_eq_none (Nat.le_refl _), hlast',
    Option.getD_some]

/-- No key bounds a query that is above the last one, or that is a NaN. -/
theorem not_le_key_of_beyond {samples : List (Sample Binary64)} {last : Sample Binary64}
    {query : Binary64} (hincreasing : Increasing samples) (hlast : samples.getLast? = some last)
    (h : last.key < query ∨ query.isNaN = true) : ∀ s ∈ samples, ¬query ≤ s.key := by
  intro s hs
  rcases h with hmax | hnan
  · obtain ⟨earlier, rfl⟩ := List.getLast?_eq_some_iff.mp hlast
    have hbelow := (List.pairwise_append.mp hincreasing).2.2
    rcases List.mem_append.mp hs with hs | hs
    · exact Binary64.not_le_of_lt (Binary64.lt_trans (hbelow s hs last (by simp)) hmax)
    · rw [List.mem_singleton.mp hs]
      exact Binary64.not_le_of_lt hmax
  · exact Binary64.not_le_of_isNaN hnan s.key

/-! ## Values -/

section Values

variable {α : Type} [Zero α] [Add α] [Sub α] [Mul α] [Div α]

/-- The value of a curve at a query whose place is known. -/
def Location.value (query : α) : Location α → α
  | .beforeFirst first => first.value
  | .between left right => left.value + Sample.slope left right * (query - left.key)
  | .afterLast last => last.value

/-- The slope of a curve to the left of a query whose place is known. -/
def Location.slope : Location α → α
  | .beforeFirst _ => 0
  | .between left right => Sample.slope left right
  | .afterLast _ => 0

variable [LE α] [DecidableLE α]

theorem evaluate_of_locate {c : SampledCurve α} {query : α} {first second : Sample α}
    {rest : List (Sample α)} {place : Location α} (h : c.samples = first :: second :: rest)
    (hplace : locate query first (second :: rest) = place) :
    c.evaluate query = place.value query ∧ c.derivative query = place.slope := by
  subst hplace
  constructor
  · rw [evaluate, h]
    rfl
  · rw [derivative, h]
    rfl

end Values

section TwoSamples

variable {c : SampledCurve Binary64} {first second last : Sample Binary64}
  {rest : List (Sample Binary64)} {query : Binary64}

theorem evaluate_of_beyond (h : c.samples = first :: second :: rest)
    (hincreasing : Increasing c.samples) (hlast : c.samples.getLast? = some last)
    (hquery : last.key < query ∨ query.isNaN = true) :
    c.evaluate query = last.value ∧ c.derivative query = 0 := by
  have hnot_le := not_le_key_of_beyond hincreasing hlast hquery
  rw [h] at hnot_le hlast
  exact evaluate_of_locate h (locate_of_forall_not_le hnot_le hlast)

theorem evaluate_of_inside (h : c.samples = first :: second :: rest)
    (hkeys : ∀ s ∈ c.samples, s.key.isNaN = false) (hlast : c.samples.getLast? = some last)
    (hmin : ¬query ≤ first.key) (hmax : ¬(last.key < query ∨ query.isNaN = true)) :
    ∃ left right, Segment c.samples (upperIndex query c.samples) left right ∧
      left.key < query ∧ query ≤ right.key ∧
      c.evaluate query = left.value + Sample.slope left right * (query - left.key) ∧
      c.derivative query = Sample.slope left right := by
  rw [not_or, Bool.not_eq_true] at hmax
  have hmem := List.mem_of_getLast? hlast
  rw [h] at hkeys hmem
  obtain ⟨left, right, hsegment, hleft, hright⟩ :=
    exists_segment hkeys hmax.2 hmem hmin hmax.1
  rw [h]
  exact ⟨left, right, hsegment, hleft, hright,
    evaluate_of_locate h ((locate_eq query first _).trans hsegment.location)⟩

end TwoSamples

/-! ## Runs -/

theorem Ordered.increasing {samples : List (Sample Binary64)} (h : Ordered samples)
    (hkeys : ∀ s ∈ samples, s.key.isNaN = false) : Increasing samples := by
  have hstrict := h.strictly_increasing
  rwa [List.filter_eq_self.mpr fun s hs => by simp [hkeys s hs]] at hstrict

theorem increasing_run (emptyValue : Binary64) (edits : List Edit)
    (hkeys : ∀ s ∈ ((empty emptyValue).run edits).samples, s.key.isNaN = false) :
    Increasing ((empty emptyValue).run edits).samples :=
  (records_run emptyValue edits).ordered.increasing hkeys

/-- After any edits that leave no NaN among the keys, every query has the value
that the samples give it, a NaN, an infinity and either zero included: the empty
value, or the only one, or the first or the last one beyond the ends, where the
slope is zero. Inside there is exactly one segment that holds the query, it is
not vertical, and both the value and the slope are those of its straight line. -/
theorem run_evaluate_eq_line (emptyValue : Binary64) (edits : List Edit)
    (hkeys : ∀ s ∈ ((empty emptyValue).run edits).samples, s.key.isNaN = false)
    (query : Binary64) :
    let c := (empty emptyValue).run edits
    Curve.value c query = c.evaluate query ∧ Curve.derivative c query = c.derivative query ∧
      match c.samples with
      | [] => c.evaluate query = emptyValue ∧ c.derivative query = 0
      | [only] => c.evaluate query = only.value ∧ c.derivative query = 0
      | first :: _ :: _ => ∃ last,
        c.samples.getLast? = some last ∧
        c.minKey? = some first.key ∧ c.maxKey? = some last.key ∧
        if query ≤ first.key then c.evaluate query = first.value ∧ c.derivative query = 0
        else if last.key < query ∨ query.isNaN = true then
          c.evaluate query = last.value ∧ c.derivative query = 0
        else ∃ i left right,
          Segment c.samples i left right ∧ left.key < query ∧ query ≤ right.key ∧
          (∀ j before after, Segment c.samples j before after → before.key < query →
            query ≤ after.key → j = i) ∧
          left.key < right.key ∧
          c.derivative query = Sample.slope left right ∧
          c.evaluate query = left.value + Sample.slope left right * (query - left.key) := by
  intro c
  have hincreasing : Increasing c.samples := increasing_run emptyValue edits hkeys
  have hempty : c.emptyValue = emptyValue := run_emptyValue _ edits
  refine ⟨rfl, rfl, ?_⟩
  split
  · next h => exact ⟨by rw [evaluate, h, hempty], by rw [derivative, h]⟩
  · next h => exact ⟨by rw [evaluate, h], by rw [derivative, h]⟩
  · next first second rest h =>
    obtain ⟨last, hlast⟩ : ∃ last, c.samples.getLast? = some last :=
      ⟨_, List.getLast?_eq_some_getLast (by rw [h]; exact List.cons_ne_nil _ _)⟩
    refine ⟨last, hlast, by rw [minKey?, h]; rfl, by rw [maxKey?, hlast]; rfl, ?_⟩
    split
    · next hmin => exact evaluate_of_locate h (if_pos hmin)
    · next hmin =>
      split
      · next hmax => exact evaluate_of_beyond h hincreasing hlast hmax
      · next hmax =>
        obtain ⟨left, right, hsegment, hleft, hright, hvalue, hslope⟩ :=
          evaluate_of_inside h hkeys hlast hmin hmax
        refine ⟨_, left, right, hsegment, hleft, hright, ?_, hsegment.key_lt hincreasing, hslope,
          hvalue⟩
        intro j before after hother hbefore hafter
        exact (hother.upperIndex_eq hincreasing hbefore hafter).symm

/-- Zero lies on the segment from one infinity to the other. -/
theorem run_evaluate_between_infinities :
    let c := (empty 0).run [.add ⟨.infinity false, 0⟩, .add ⟨.infinity true, 1⟩]
    (∀ s ∈ c.samples, s.key.isNaN = false) ∧
      ∃ i left right, Segment c.samples i left right ∧ left.key < 0 ∧ 0 ≤ right.key ∧
        c.derivative 0 = Sample.slope left right := by
  intro c
  have hsamples : c.samples = [⟨.infinity true, 1⟩, ⟨.infinity false, 0⟩] := by decide +kernel
  have hkeys : ∀ s ∈ c.samples, s.key.isNaN = false := by
    rw [hsamples]
    decide
  obtain ⟨-, -, hquery⟩ := run_evaluate_eq_line 0 _ hkeys 0
  rw [hsamples] at hquery ⊢
  obtain ⟨last, hlast, -, -, hquery⟩ := hquery
  obtain rfl : _ = last := Option.some.inj hlast
  rw [if_neg (by decide), if_neg (by decide)] at hquery
  obtain ⟨i, left, right, hsegment, hleft, hright, -, -, hslope, -⟩ := hquery
  exact ⟨hkeys, i, left, right, hsegment, hleft, hright, hslope⟩

end SampledCurve

end Lookout

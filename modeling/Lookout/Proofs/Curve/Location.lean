/-
Lookout.Proofs.Curve.Location — what the place of a query among the samples of
a curve depends on.

The value and the slope of a curve are those of the place of the query
(`evaluate_eq`, `derivative_eq`); a curve with a single sample is no exception.
Queries that the keys do not tell apart have one place (`locate?_congr`). Of
the samples, those behind the first key that is not below the query play no
part (`locate?_append_of_le`), and of the samples below it only the last one
does (`locate?_append_of_not_le`). Where keys increase, a query lies before
them, behind them, or on a segment (`locate?_cases`), and a segment that holds
it is its place (`Segment.locate?_eq`).
-/
import Lookout.Proofs.Curve.Values

namespace Lookout

namespace SampledCurve

section Place

variable {α : Type} [LE α] [DecidableLE α] {p q query : α} {s left : Sample α}
  {samples before behind : List (Sample α)}

/-- Where a query lies among some samples, if there are any. -/
def locate? (query : α) : List (Sample α) → Option (Location α)
  | [] => none
  | first :: rest => some (locate query first rest)

/-! ## The place decides -/

theorem evaluate_eq [Add α] [Sub α] [Mul α] [Div α] (c : SampledCurve α) (query : α) :
    c.evaluate query = (locate? query c.samples).elim c.emptyValue (Location.value query) := by
  obtain ⟨samples, emptyValue⟩ := c
  match samples with
  | [] => rfl
  | [only] =>
    -- on either side of the only key the value is the same
    simp only [evaluate, locate?, locate, locateAfter]
    split <;> rfl
  | _ :: _ :: _ => rfl

theorem derivative_eq [Zero α] [Sub α] [Div α] (c : SampledCurve α) (query : α) :
    c.derivative query = (locate? query c.samples).elim 0 Location.slope := by
  obtain ⟨samples, emptyValue⟩ := c
  match samples with
  | [] => rfl
  | [only] =>
    simp only [derivative, locate?, locate, locateAfter]
    split <;> rfl
  | _ :: _ :: _ => rfl

/-! ## What the place depends on -/

theorem locateAfter_congr (h : ∀ t ∈ samples, p ≤ t.key ↔ q ≤ t.key) :
    locateAfter p left samples = locateAfter q left samples := by
  induction samples generalizing left with
  | nil => rfl
  | cons t rest ih =>
    obtain ⟨ht, hrest⟩ := List.forall_mem_cons.mp h
    simp only [locateAfter, ht, ih hrest]

/-- Queries that have the same keys below them lie at the same place. -/
theorem locate?_congr (h : ∀ t ∈ samples, p ≤ t.key ↔ q ≤ t.key) :
    locate? p samples = locate? q samples := by
  cases samples with
  | nil => rfl
  | cons first rest =>
    obtain ⟨hfirst, hrest⟩ := List.forall_mem_cons.mp h
    simp only [locate?, locate, hfirst, locateAfter_congr hrest]

theorem locateAfter_append_of_le (h : ∃ t ∈ before, query ≤ t.key) :
    locateAfter query left (before ++ behind) = locateAfter query left before := by
  induction before generalizing left with
  | nil => simp at h
  | cons t rest ih =>
    by_cases ht : query ≤ t.key
    · simp only [List.cons_append, locateAfter, if_pos ht]
    · simp only [List.cons_append, locateAfter, if_neg ht]
      exact ih (by simpa [ht] using h)

/-- The walk stops at the first key that is not below the query. -/
theorem locate?_append_of_le (h : ∃ t ∈ before, query ≤ t.key) :
    locate? query (before ++ behind) = locate? query before := by
  cases before with
  | nil => simp at h
  | cons first rest =>
    by_cases hfirst : query ≤ first.key
    · simp only [List.cons_append, locate?, locate, if_pos hfirst]
    · have hrest : ∃ t ∈ rest, query ≤ t.key := by simpa [hfirst] using h
      simp only [List.cons_append, locate?, locate, locateAfter_append_of_le hrest]

theorem locateAfter_append_of_not_le (h : ∀ t ∈ before, ¬query ≤ t.key) (hs : ¬query ≤ s.key) :
    locateAfter query left (before ++ s :: behind) = locateAfter query s behind := by
  induction before generalizing left with
  | nil => exact if_neg hs
  | cons t rest ih =>
    obtain ⟨ht, hrest⟩ := List.forall_mem_cons.mp h
    rw [List.cons_append, locateAfter, if_neg ht, ih hrest]

/-- The walk passes by all keys below the query and remembers the last of them. -/
theorem locate?_append_of_not_le (h : ∀ t ∈ before, ¬query ≤ t.key) (hs : ¬query ≤ s.key) :
    locate? query (before ++ s :: behind) = some (locateAfter query s behind) := by
  cases before with
  | nil => rw [List.nil_append, locate?, locate, if_neg hs]
  | cons first rest =>
    obtain ⟨hfirst, hrest⟩ := List.forall_mem_cons.mp h
    rw [List.cons_append, locate?, locate, if_neg hfirst, locateAfter_append_of_not_le hrest hs]

/-- A query between two neighbours is found there. -/
theorem locate?_append_of_between {right : Sample α} (h : ∀ t ∈ before ++ [left], ¬query ≤ t.key)
    (hright : query ≤ right.key) :
    locate? query (before ++ left :: right :: behind) = some (.between left right) := by
  rw [locate?_append_of_not_le (fun t ht => h t (List.mem_append_left _ ht)) (h left (by simp)),
    locateAfter, if_pos hright]

end Place

/-! ## Keys before and behind a sample -/

theorem Increasing.lt_of_append {α : Type} [LT α] {s : Sample α} {before behind : List (Sample α)}
    (h : Increasing (before ++ s :: behind)) : ∀ t ∈ before, t.key < s.key :=
  fun t ht => (List.pairwise_append.mp h).2.2 t ht s List.mem_cons_self

/-- A query on a segment is found there. -/
theorem Segment.locate?_eq {samples : List (Sample Binary64)} {i : Nat}
    {left right : Sample Binary64} {query : Binary64} (h : Segment samples i left right)
    (hincreasing : Increasing samples) (hleft : left.key < query) (hright : query ≤ right.key) :
    locate? query samples = some (.between left right) := by
  cases samples with
  | nil => exact absurd h.right_eq (by simp)
  | cons first rest =>
    rw [locate?, locate_eq, h.upperIndex_eq hincreasing hleft hright, h.location]

/-- A query lies before the first sample, behind the last one, or on a segment. -/
theorem locate?_cases {samples : List (Sample Binary64)}
    (hkeys : ∀ s ∈ samples, s.key.isNaN = false) (hincreasing : Increasing samples)
    (hsamples : samples ≠ []) (query : Binary64) :
    (∃ s ∈ samples, locate? query samples = some (.beforeFirst s)) ∨
      (∃ s ∈ samples, locate? query samples = some (.afterLast s)) ∨
      ∃ i left right, Segment samples i left right ∧ left.key < query ∧ query ≤ right.key := by
  obtain ⟨first, rest, rfl⟩ := List.exists_cons_of_ne_nil hsamples
  obtain ⟨last, hlast⟩ : ∃ last, (first :: rest).getLast? = some last :=
    ⟨_, List.getLast?_eq_some_getLast hsamples⟩
  have hmem : last ∈ first :: rest := List.mem_of_getLast? hlast
  by_cases hmin : query ≤ first.key
  · exact .inl ⟨first, List.mem_cons_self, congrArg some (if_pos hmin)⟩
  by_cases hmax : last.key < query ∨ query.isNaN = true
  · have hbehind := not_le_key_of_beyond hincreasing hlast hmax
    exact .inr (.inl ⟨last, hmem, congrArg some (locate_of_forall_not_le hbehind hlast)⟩)
  · rw [not_or, Bool.not_eq_true] at hmax
    exact .inr (.inr ⟨_, exists_segment hkeys hmax.2 hmem hmin hmax.1⟩)

/-- Two neighbours split the samples into those before and those behind them. -/
theorem Segment.exists_append {α : Type} {samples : List (Sample α)} {i : Nat}
    {left right : Sample α} (h : Segment samples i left right) :
    ∃ before behind, samples = before ++ left :: right :: behind := by
  obtain ⟨j, rfl⟩ := Nat.exists_eq_add_one.mpr h.pos
  obtain ⟨hj, hleft⟩ := List.getElem?_eq_some_iff.mp (show samples[j]? = some left from h.left_eq)
  obtain ⟨hnext, hright⟩ := List.getElem?_eq_some_iff.mp h.right_eq
  have hdrop : samples.drop j = left :: right :: samples.drop (j + 2) := by
    rw [List.drop_eq_getElem_cons hj, List.drop_eq_getElem_cons hnext, hleft, hright]
  exact ⟨samples.take j, samples.drop (j + 2), by rw [← hdrop, List.take_append_drop]⟩

end SampledCurve

end Lookout

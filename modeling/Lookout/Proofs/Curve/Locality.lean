/-
Lookout.Proofs.Curve.Locality — adding a sample changes a curve between the
neighbouring keys only.

A query that is not above some key below the new one is found before the walk
comes to the new sample (`locate?_place_of_le`); a query above some key above
the new one makes the walk pass by it (`locate?_place_of_lt`). In both cases
the query has the place that it had before, whether the new sample comes to
stand between others, at an end, or beside the only one.
-/
import Lookout.Proofs.Curve.Location

namespace Lookout

namespace SampledCurve

section Place

variable {α : Type} [KeyOrder α] {s t : Sample α} {before behind : List (Sample α)}

theorem place_append_of_precedes
    (h : ∀ t ∈ before, KeyOrder.precedes t.key s.key = true) :
    place s (before ++ behind) = before ++ place s behind := by
  induction before with
  | nil => rfl
  | cons t rest ih =>
    obtain ⟨ht, hrest⟩ := List.forall_mem_cons.mp h
    rw [List.cons_append, place_cons_eq_if, if_pos ht, ih hrest, List.cons_append]

theorem place_append_of_not_precedes (h : KeyOrder.precedes t.key s.key = false) :
    place s (before ++ t :: behind) = place s before ++ t :: behind := by
  induction before with
  | nil => simp [place_cons_eq_if, h]
  | cons u rest ih =>
    rw [List.cons_append, place_cons_eq_if, place_cons_eq_if, ih]
    split <;> rfl

end Place

section Neighbours

variable {c : SampledCurve Binary64} {s lower upper : Sample Binary64}
  {samples before behind : List (Sample Binary64)} {query : Binary64}

theorem precedes_of_lt (h : lower.key < upper.key) :
    KeyOrder.precedes lower.key upper.key = true :=
  Binary64.totalLE_iff.mpr (Int.le_of_lt (Binary64.totalKey_lt_of_lt h))

theorem not_precedes_of_lt (h : lower.key < upper.key) :
    KeyOrder.precedes upper.key lower.key = false := by
  have := Binary64.totalKey_lt_of_lt h
  exact decide_eq_false (by omega)

theorem locate?_place_of_le (hincreasing : Increasing samples) (hlower : lower ∈ samples)
    (hnew : lower.key < s.key) (hquery : query ≤ lower.key) :
    locate? query (place s samples) = locate? query samples := by
  obtain ⟨before, behind, rfl⟩ := List.append_of_mem hlower
  have hprecedes : ∀ t ∈ before ++ [lower], KeyOrder.precedes t.key s.key = true := by
    intro t ht
    rcases List.mem_append.mp ht with ht | ht
    · exact precedes_of_lt (Binary64.lt_trans (hincreasing.lt_of_append t ht) hnew)
    · rw [List.mem_singleton.mp ht]
      exact precedes_of_lt hnew
  have hstops : ∃ t ∈ before ++ [lower], query ≤ t.key := ⟨lower, by simp, hquery⟩
  rw [List.append_cons, place_append_of_precedes hprecedes, locate?_append_of_le hstops,
    locate?_append_of_le hstops]

theorem locate?_place_of_lt (hincreasing : Increasing samples) (hupper : upper ∈ samples)
    (hnew : s.key < upper.key) (hquery : upper.key < query) :
    locate? query (place s samples) = locate? query samples := by
  obtain ⟨before, behind, rfl⟩ := List.append_of_mem hupper
  have hpassed : ∀ t ∈ before, ¬query ≤ t.key := fun t ht =>
    Binary64.not_le_of_lt (Binary64.lt_trans (hincreasing.lt_of_append t ht) hquery)
  have hpassed' : ∀ t ∈ place s before, ¬query ≤ t.key := by
    intro t ht
    rcases mem_place.mp ht with rfl | ht
    · exact Binary64.not_le_of_lt (Binary64.lt_trans hnew hquery)
    · exact hpassed t ht
  rw [place_append_of_not_precedes (not_precedes_of_lt hnew),
    locate?_append_of_not_le hpassed' (Binary64.not_le_of_lt hquery),
    locate?_append_of_not_le hpassed (Binary64.not_le_of_lt hquery)]

/-- A query is beyond the neighbours of a key: it is not above some stored key
below that key, or it is above some stored key above it. -/
def Beyond (c : SampledCurve Binary64) (key query : Binary64) : Prop :=
  (∃ lower ∈ c.samples, lower.key < key ∧ query ≤ lower.key) ∨
    ∃ upper ∈ c.samples, key < upper.key ∧ upper.key < query

theorem locate?_add_of_beyond (hincreasing : Increasing c.samples)
    (h : c.Beyond s.key query) : locate? query (c.add s).samples = locate? query c.samples := by
  unfold add
  split
  · rfl
  · rcases h with ⟨lower, hlower, hnew, hquery⟩ | ⟨upper, hupper, hnew, hquery⟩
    · exact locate?_place_of_le hincreasing hlower hnew hquery
    · exact locate?_place_of_lt hincreasing hupper hnew hquery

/-- **Adding a sample is local.** After any edits that leave no NaN among the
keys, one more sample changes neither the value nor the slope at the queries
beyond its neighbours: those up to the greatest stored key below the new one,
and those above the smallest stored key above it. A sample whose key is stored
already changes nothing at any query, a NaN included. -/
theorem run_add_local (emptyValue : Binary64) (edits : List Edit) (s : Sample Binary64)
    (query : Binary64) :
    let c := (empty emptyValue).run edits
    ((∀ t ∈ c.samples, t.key.isNaN = false) → c.Beyond s.key query →
        (c.add s).evaluate query = c.evaluate query ∧
          (c.add s).derivative query = c.derivative query) ∧
      (c.hasKey s.key = true →
        (c.add s).evaluate query = c.evaluate query ∧
          (c.add s).derivative query = c.derivative query) := by
  intro c
  refine ⟨fun hkeys hbeyond => ?_, fun hkey => ?_⟩
  · have hincreasing : Increasing c.samples := increasing_run emptyValue edits hkeys
    have hplace : locate? query (c.add s).samples = locate? query c.samples :=
      locate?_add_of_beyond hincreasing hbeyond
    rw [evaluate_eq, evaluate_eq, derivative_eq, derivative_eq, hplace, add_emptyValue]
    exact ⟨rfl, rfl⟩
  · have hsame : c.add s = c := if_pos hkey
    rw [hsame]
    exact ⟨rfl, rfl⟩

/-- Between 10 and 20 a sample comes in: nothing changes at 10, nor behind the
last key. Another one with the key 10 changes nothing at all. -/
theorem run_add_local_fifteen :
    let c := (empty 0).run
      [.add ⟨.ofNat 20, .ofNat 1⟩, .add ⟨.ofNat 0, .ofNat 3⟩, .add ⟨.ofNat 10, .ofNat 5⟩]
    (∀ t ∈ c.samples, t.key.isNaN = false) ∧
      c.Beyond (.ofNat 15) (.ofNat 10) ∧
      (c.add ⟨.ofNat 15, .ofNat 7⟩).derivative (.ofNat 10) = c.derivative (.ofNat 10) ∧
      c.Beyond (.ofNat 15) (.infinity false) ∧
      (c.add ⟨.ofNat 15, .ofNat 7⟩).evaluate (.infinity false) = c.evaluate (.infinity false) ∧
      c.hasKey (.ofNat 10) = true ∧
      (c.add ⟨.ofNat 10, .ofNat 7⟩).evaluate (.nan false) = c.evaluate (.nan false) := by
  intro c
  have hkeys : ∀ t ∈ c.samples, t.key.isNaN = false := by decide +kernel
  have hat : c.Beyond (.ofNat 15) (.ofNat 10) := .inl (by decide +kernel)
  have hbehind : c.Beyond (.ofNat 15) (.infinity false) := .inr (by decide +kernel)
  have hkey : c.hasKey (.ofNat 10) = true := by decide +kernel
  obtain ⟨hnew, -⟩ := run_add_local 0 _ ⟨.ofNat 15, .ofNat 7⟩ (.ofNat 10)
  obtain ⟨hnew', -⟩ := run_add_local 0 _ ⟨.ofNat 15, .ofNat 7⟩ (.infinity false)
  obtain ⟨-, hold⟩ := run_add_local 0 _ ⟨.ofNat 10, .ofNat 7⟩ (.nan false)
  exact ⟨hkeys, hat, (hnew hkeys hat).2, hbehind, (hnew' hkeys hbehind).1, hkey, (hold hkey).1⟩

end Neighbours

end SampledCurve

end Lookout

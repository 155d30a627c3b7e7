/-
Lookout.Proofs.Curve.Contents — what a curve holds after any number of edits.

The history of a curve is what has been put into it since its samples were
last replaced. The curve holds the history without the samples whose key is
equal to an earlier one, stably sorted by the total order (`Records`). Each
edit preserves this (`Records.apply`), and so does a run of edits
(`records_run`).

Two notions of equality meet here. A repeated key is one that is `==` to an
earlier key, so the two zeros are one key and a NaN never repeats. The sort
tells apart all numbers that are not the same.
-/
import Lookout.Curve.Text
import Lookout.Proofs.Numeric.Order
import Lookout.Proofs.Sorting

namespace Lookout

/-- Where a sample stands in the total order. -/
def Sample.position (s : Sample Binary64) : Int := s.key.totalKey

namespace SampledCurve

open Binary64 (zero nan)

/-! ## Ordered samples -/

/-- Samples in the total order of their keys, no two of which are equal. -/
structure Ordered (samples : List (Sample Binary64)) : Prop where
  ascending : Ascending Sample.position samples
  distinct : samples.Pairwise fun s t => (s.key == t.key) = false

theorem Ordered.strictly_increasing {samples : List (Sample Binary64)} (h : Ordered samples) :
    (samples.filter fun s => !s.key.isNaN).Pairwise fun s t => s.key < t.key := by
  rw [List.pairwise_filter]
  refine (h.ascending.and h.distinct).imp ?_
  intro s t hst hs ht
  obtain ⟨hle, hne⟩ := hst
  exact Binary64.lt_of_totalLE (by simpa using hs) (by simpa using ht)
    (Binary64.totalLE_iff.mpr hle) hne

/-! ## Adding a sample -/

section Place

variable {α : Type} [KeyOrder α]

@[simp] theorem place_nil (s : Sample α) : place s [] = [s] := rfl

theorem place_cons_eq_if (s t : Sample α) (rest : List (Sample α)) :
    place s (t :: rest) =
      if KeyOrder.precedes t.key s.key = true then t :: place s rest else s :: t :: rest := by
  by_cases h : KeyOrder.precedes t.key s.key = true <;> simp [place, h]

theorem mem_place {s t : Sample α} {samples : List (Sample α)} :
    t ∈ place s samples ↔ t = s ∨ t ∈ samples := by
  have hsplit := List.takeWhile_append_dropWhile
    (p := fun t : Sample α => KeyOrder.precedes t.key s.key) (l := samples)
  rw [place, ← hsplit]
  grind

end Place

theorem place_cons (s t : Sample Binary64) (rest : List (Sample Binary64)) :
    place s (t :: rest) =
      if t.position ≤ s.position then t :: place s rest else s :: t :: rest := by
  have hle : KeyOrder.precedes t.key s.key = true ↔ t.position ≤ s.position :=
    Binary64.totalLE_iff
  by_cases h : t.position ≤ s.position <;> simp [place_cons_eq_if, hle, h]

theorem ascending_place {samples : List (Sample Binary64)} (s : Sample Binary64)
    (h : Ascending Sample.position samples) :
    Ascending Sample.position (place s samples) := by
  induction samples with
  | nil => exact List.pairwise_singleton _ _
  | cons t rest ih =>
    have hrest := List.pairwise_cons.mp h
    rw [place_cons]
    split
    · next hts =>
      refine List.pairwise_cons.mpr ⟨fun u hu => ?_, ih hrest.2⟩
      rcases mem_place.mp hu with rfl | hu
      · exact hts
      · exact hrest.1 u hu
    · next hts =>
      refine List.pairwise_cons.mpr ⟨fun u hu => ?_, h⟩
      have := h.head_le u hu
      omega

theorem filter_place {samples : List (Sample Binary64)} (s : Sample Binary64)
    (h : Ascending Sample.position samples) (k : Int) :
    (place s samples).filter (fun t => t.position = k) =
      (samples ++ [s]).filter fun t => t.position = k := by
  induction samples with
  | nil => simp
  | cons t rest ih =>
    rw [place_cons]
    split
    · rw [List.filter_cons, ih h.of_cons, List.cons_append, List.filter_cons]
    · next hts =>
      -- everything behind `s` has a greater position, so it has no part in that of `s`
      by_cases hk : s.position = k
      · have hnone : (t :: rest).filter (fun t => t.position = k) = [] := by
          rw [List.filter_eq_nil_iff]
          intro u hu
          have := h.head_le u hu
          simp only [decide_eq_true_eq]
          omega
        rw [List.filter_append, List.filter_cons, if_pos (by simpa using hk), hnone,
          List.nil_append, List.filter_cons, if_pos (by simpa using hk), List.filter_nil]
      · rw [List.filter_append, List.filter_cons, if_neg (by simpa using hk)]
        simp [hk]

/-- Putting a sample at its place is sorting after it has been put last. -/
theorem place_eq_sortBy {samples : List (Sample Binary64)} (s : Sample Binary64)
    (h : Ascending Sample.position samples) :
    place s samples = sortBy Sample.position (samples ++ [s]) :=
  eq_sortBy (ascending_place s h) (filter_place s h)

theorem add_samples {c : SampledCurve Binary64} (s : Sample Binary64)
    (h : Ascending Sample.position c.samples) :
    (c.add s).samples =
      sortBy Sample.position (if c.hasKey s.key then c.samples else c.samples ++ [s]) := by
  unfold add
  split
  · exact eq_sortBy h fun _ => rfl
  · exact place_eq_sortBy s h

@[simp] theorem add_emptyValue (c : SampledCurve Binary64) (s : Sample Binary64) :
    (c.add s).emptyValue = c.emptyValue := by
  unfold add
  split <;> rfl

@[simp] theorem addAll_emptyValue (c : SampledCurve Binary64) (samples : List (Sample Binary64)) :
    (c.addAll samples).emptyValue = c.emptyValue := by
  induction samples generalizing c with
  | nil => rfl
  | cons s rest ih =>
    change ((c.add s).addAll rest).emptyValue = c.emptyValue
    rw [ih, add_emptyValue]

/-! ## Histories without repeated keys -/

/-- The samples of a history whose key equals none before it, neither in the
history nor in what is earlier still. -/
def withoutRepeats (earlier : List (Sample Binary64)) :
    List (Sample Binary64) → List (Sample Binary64)
  | [] => []
  | s :: later =>
    if earlier.any (·.key == s.key) then withoutRepeats (earlier ++ [s]) later
    else s :: withoutRepeats (earlier ++ [s]) later

theorem withoutRepeats_append_singleton (earlier history : List (Sample Binary64))
    (s : Sample Binary64) :
    withoutRepeats earlier (history ++ [s]) = withoutRepeats earlier history ++
      if (earlier ++ history).any (·.key == s.key) then [] else [s] := by
  induction history generalizing earlier with
  | nil => simp [withoutRepeats]
  | cons t later ih =>
    simp only [List.cons_append, withoutRepeats, ih, List.append_assoc]
    split <;> rfl

/-- Dropping a repeated key hides nothing: the first sample with a key stays. -/
theorem find?_withoutRepeats (earlier history : List (Sample Binary64)) (key : Binary64) :
    (earlier ++ withoutRepeats earlier history).find? (·.key == key) =
      (earlier ++ history).find? (·.key == key) := by
  induction history generalizing earlier with
  | nil => rfl
  | cons s later ih =>
    have hnext := ih (earlier ++ [s])
    simp only [List.append_assoc, List.singleton_append] at hnext
    rw [withoutRepeats]
    split
    · next hrepeat =>
      rw [← hnext]
      by_cases hkey : (s.key == key) = true
      · -- an earlier sample has this key as well, so neither list is searched further
        obtain ⟨t, ht, hts⟩ := List.any_eq_true.mp hrepeat
        have hfound : (earlier.find? (·.key == key)).isSome = true := by
          rw [List.isSome_find?, List.any_eq_true]
          exact ⟨t, ht, Binary64.beq_trans hts hkey⟩
        obtain ⟨u, hu⟩ := Option.isSome_iff_exists.mp hfound
        rw [List.find?_append, List.find?_append, hu]
        rfl
      · simp [List.find?_append, hkey]
    · exact hnext

theorem any_withoutRepeats (history : List (Sample Binary64)) (key : Binary64) :
    (withoutRepeats [] history).any (·.key == key) = history.any (·.key == key) := by
  have h := find?_withoutRepeats [] history key
  rw [List.nil_append, List.nil_append] at h
  rw [← List.isSome_find?, h, List.isSome_find?]

theorem not_any_of_mem_withoutRepeats {earlier history : List (Sample Binary64)}
    {s : Sample Binary64} (h : s ∈ withoutRepeats earlier history) :
    earlier.any (·.key == s.key) = false := by
  induction history generalizing earlier with
  | nil => simp [withoutRepeats] at h
  | cons t later ih =>
    have hearlier (hs : s ∈ withoutRepeats (earlier ++ [t]) later) :
        earlier.any (·.key == s.key) = false := by
      have := ih hs
      rw [List.any_append, Bool.or_eq_false_iff] at this
      exact this.1
    rw [withoutRepeats] at h
    split at h
    · exact hearlier h
    · next hnew =>
      rcases List.mem_cons.mp h with rfl | hs
      · exact Bool.eq_false_iff.mpr hnew
      · exact hearlier hs

theorem distinct_withoutRepeats (earlier history : List (Sample Binary64)) :
    (withoutRepeats earlier history).Pairwise fun s t => (s.key == t.key) = false := by
  induction history generalizing earlier with
  | nil => simp [withoutRepeats]
  | cons s later ih =>
    rw [withoutRepeats]
    split
    · exact ih _
    · refine List.pairwise_cons.mpr ⟨fun t ht => ?_, ih _⟩
      have := not_any_of_mem_withoutRepeats ht
      rw [List.any_append, Bool.or_eq_false_iff] at this
      simpa using this.2

theorem withoutRepeats_of_distinct {earlier samples : List (Sample Binary64)}
    (h : (earlier ++ samples).Pairwise fun s t => (s.key == t.key) = false) :
    withoutRepeats earlier samples = samples := by
  induction samples generalizing earlier with
  | nil => rfl
  | cons s later ih =>
    have hnew : earlier.any (·.key == s.key) = false := by
      rw [List.any_eq_false]
      intro t ht
      simp [(List.pairwise_append.mp h).2.2 t ht s (by simp)]
    rw [withoutRepeats, if_neg (by simp [hnew]), ih (by simpa using h)]

/-- A NaN equals no key, so none is dropped. -/
theorem filter_withoutRepeats_of_isNaN {key : Binary64} (hkey : key.isNaN = true)
    (earlier history : List (Sample Binary64)) :
    (withoutRepeats earlier history).filter (fun s => s.key = key) =
      history.filter fun s => s.key = key := by
  induction history generalizing earlier with
  | nil => rfl
  | cons s later ih =>
    rw [withoutRepeats]
    split
    · next hrepeat =>
      obtain ⟨t, -, hts⟩ := List.any_eq_true.mp hrepeat
      have hs : s.key ≠ key := by
        rintro rfl
        rw [Binary64.beq_comm, Binary64.beq_eq_false_of_isNaN hkey] at hts
        simp at hts
      rw [ih, List.filter_cons_of_neg (by simpa using hs)]
    · rw [List.filter_cons, ih, List.filter_cons]

/-! ## Edits -/

/-- What may happen to the samples of a curve. -/
inductive Edit where
  | add (s : Sample Binary64)
  | parse (text : List Char)
  | tryParse (text : List Char)

/-- The curve after an edit. -/
def Edit.apply (c : SampledCurve Binary64) : Edit → SampledCurve Binary64
  | .add s => c.add s
  | .parse text => c.parse text
  | .tryParse text =>
    match c.tryParse text with
    | .ok parsed => parsed
    | .error _ => c

/-- The samples that reading a text puts in place of all others, if it does. -/
def replacement? (text : List Char) : Option (List (Sample Binary64)) :=
  match Table.read text with
  | .ok samples => if samples.isEmpty then none else some samples
  | .error _ => none

/-- The history after an edit: all that has been put into a curve since its
samples were last replaced. -/
def Edit.record (history : List (Sample Binary64)) : Edit → List (Sample Binary64)
  | .add s => history ++ [s]
  | .parse text => (replacement? text).getD history
  | .tryParse text => (replacement? text).getD history

/-- The curve after some edits. -/
def run (c : SampledCurve Binary64) (edits : List Edit) : SampledCurve Binary64 :=
  edits.foldl Edit.apply c

/-- The history of some edits. -/
def history (edits : List Edit) : List (Sample Binary64) := edits.foldl Edit.record []

theorem tryParse_eq (c : SampledCurve Binary64) (text : List Char) :
    c.tryParse text = (Table.read text).map fun samples =>
      if samples.isEmpty then c else (empty c.emptyValue).addAll samples := by
  rw [tryParse]
  cases Table.read text <;> rfl

theorem parse_eq (c : SampledCurve Binary64) (text : List Char) :
    c.parse text = ((replacement? text).map (empty c.emptyValue).addAll).getD c := by
  simp only [parse, tryParse, replacement?]
  cases hread : Table.read text with
  | error e => rfl
  | ok samples =>
    change (if samples.isEmpty then c else (empty c.emptyValue).addAll samples) = _
    cases samples <;> rfl

/-- A failed `tryParse` leaves the curve as it is, as `parse` does. -/
theorem apply_tryParse (c : SampledCurve Binary64) (text : List Char) :
    Edit.apply c (.tryParse text) = c.parse text := rfl

/-! ## Contents -/

/-- The curve holds a history without its repeated keys, stably sorted. -/
def Records (c : SampledCurve Binary64) (history : List (Sample Binary64)) : Prop :=
  c.samples = sortBy Sample.position (withoutRepeats [] history)

theorem records_empty (emptyValue : Binary64) : (empty emptyValue).Records [] := by
  simp [Records, empty, sortBy, withoutRepeats]

namespace Records

variable {c : SampledCurve Binary64} {history : List (Sample Binary64)}

theorem perm (h : c.Records history) : c.samples.Perm (withoutRepeats [] history) := by
  rw [h]
  exact sortBy_perm _

theorem ordered (h : c.Records history) : Ordered c.samples where
  ascending := by
    rw [h]
    exact ascending_sortBy _
  distinct := by
    refine (List.Perm.pairwise_iff ?_ h.perm).mpr (distinct_withoutRepeats [] history)
    intro s t hst
    rw [Binary64.beq_comm, hst]

theorem hasKey (h : c.Records history) (key : Binary64) :
    c.hasKey key = history.any (·.key == key) := by
  rw [SampledCurve.hasKey, h.perm.any_eq, any_withoutRepeats]

theorem find? (h : c.Records history) (key : Binary64) :
    c.samples.find? (·.key == key) = history.find? (·.key == key) := by
  -- at most one sample of the distinct history has the key, so sorting cannot move it
  have hkept : ((withoutRepeats [] history).filter (·.key == key)).Pairwise
      fun s t => s.position ≤ t.position := by
    rw [List.pairwise_filter]
    refine (distinct_withoutRepeats [] history).imp ?_
    intro s t hst hs ht
    rw [Binary64.beq_comm] at ht
    rw [Binary64.beq_trans hs ht] at hst
    simp at hst
  rw [h, ← List.head?_filter, filter_sortBy hkept, List.head?_filter]
  exact find?_withoutRepeats [] history key

theorem filter_of_isNaN (h : c.Records history) {key : Binary64} (hkey : key.isNaN = true) :
    c.samples.filter (fun s => s.key = key) = history.filter fun s => s.key = key := by
  have hposition (s : Sample Binary64) : s.key = key ↔ s.position = key.totalKey :=
    ⟨fun hs => by rw [Sample.position, hs], Binary64.totalKey_injective⟩
  rw [← filter_withoutRepeats_of_isNaN hkey [] history]
  simp only [hposition]
  rw [h, filter_key_sortBy]

theorem add (h : c.Records history) (s : Sample Binary64) :
    (c.add s).Records (history ++ [s]) := by
  have hadded : (if c.hasKey s.key then c.samples else c.samples ++ [s]) =
      c.samples ++ if history.any (·.key == s.key) then [] else [s] := by
    rw [h.hasKey]
    split <;> simp
  unfold Records
  rw [add_samples s h.ordered.ascending, hadded, h, sortBy_append,
    withoutRepeats_append_singleton, List.nil_append]

theorem addAll (h : c.Records history) (samples : List (Sample Binary64)) :
    (c.addAll samples).Records (history ++ samples) := by
  induction samples generalizing c history with
  | nil => simpa [SampledCurve.addAll] using h
  | cons s rest ih =>
    have := ih (h.add s)
    rwa [List.append_assoc, List.singleton_append] at this

theorem parse (h : c.Records history) (text : List Char) :
    (c.parse text).Records ((replacement? text).getD history) := by
  rw [parse_eq]
  cases replacement? text with
  | none => exact h
  | some samples =>
    exact (records_empty c.emptyValue).addAll samples

theorem apply (h : c.Records history) (edit : Edit) :
    (edit.apply c).Records (edit.record history) := by
  cases edit with
  | add s => exact h.add s
  | parse text => exact h.parse text
  | tryParse text =>
    rw [apply_tryParse]
    exact h.parse text

theorem run (h : c.Records history) (edits : List Edit) :
    (c.run edits).Records (edits.foldl Edit.record history) := by
  induction edits generalizing c history with
  | nil => exact h
  | cons edit later ih => exact ih (h.apply edit)

end Records

theorem Ordered.records {c : SampledCurve Binary64} (h : Ordered c.samples) :
    c.Records c.samples := by
  rw [Records, withoutRepeats_of_distinct (by simpa using h.distinct),
    sortBy_of_ascending h.ascending]

theorem Ordered.add {c : SampledCurve Binary64} (h : Ordered c.samples) (s : Sample Binary64) :
    Ordered (c.add s).samples :=
  (h.records.add s).ordered

theorem Ordered.parse {c : SampledCurve Binary64} (h : Ordered c.samples) (text : List Char) :
    Ordered (c.parse text).samples :=
  (h.records.parse text).ordered

theorem records_run (emptyValue : Binary64) (edits : List Edit) :
    ((empty emptyValue).run edits).Records (history edits) :=
  (records_empty emptyValue).run edits

/-- What a curve is without samples has no part in the samples it takes up. -/
theorem samples_addAll_empty (emptyValue emptyValue' : Binary64)
    (samples : List (Sample Binary64)) :
    ((empty emptyValue).addAll samples).samples = ((empty emptyValue').addAll samples).samples := by
  have h := (records_empty emptyValue).addAll samples
  have h' := (records_empty emptyValue').addAll samples
  exact h.trans h'.symm

@[simp] theorem parse_emptyValue (c : SampledCurve Binary64) (text : List Char) :
    (c.parse text).emptyValue = c.emptyValue := by
  rw [parse_eq]
  cases replacement? text with
  | none => rfl
  | some samples => exact addAll_emptyValue _ _

theorem run_emptyValue (c : SampledCurve Binary64) (edits : List Edit) :
    (c.run edits).emptyValue = c.emptyValue := by
  induction edits generalizing c with
  | nil => rfl
  | cons edit later ih =>
    have hstep : (edit.apply c).emptyValue = c.emptyValue := by
      cases edit with
      | add s => exact add_emptyValue c s
      | parse text => exact parse_emptyValue c text
      | tryParse text =>
        rw [apply_tryParse]
        exact parse_emptyValue c text
    exact (ih _).trans hstep

/-- After any edits a curve is in the total order of its keys, strictly
increasing off the NaNs, and without equal keys. It holds exactly its history
without repeated keys in the stable order: under each key the first sample,
and every sample under a NaN. -/
theorem run_samples_eq_sorted_history (emptyValue : Binary64) (edits : List Edit) :
    let c := (empty emptyValue).run edits
    c.samples = (withoutRepeats [] (history edits)).mergeSort (fun s t => s.key.totalLE t.key) ∧
      c.samples.Pairwise (fun s t => s.key.totalLE t.key = true) ∧
      c.samples.Pairwise (fun s t => (s.key == t.key) = false) ∧
      (c.samples.filter fun s => !s.key.isNaN).Pairwise (fun s t => s.key < t.key) ∧
      (∀ key, c.samples.find? (·.key == key) = (history edits).find? (·.key == key)) ∧
      (∀ key : Binary64, key.isNaN = true →
        c.samples.filter (fun s => s.key = key) = (history edits).filter fun s => s.key = key) ∧
      (∀ s, (c.add s).samples = (if c.hasKey s.key then c.samples else c.samples ++ [s]).mergeSort
        fun s t => s.key.totalLE t.key) ∧
      (∀ s, c.hasKey s.key = true → c.add s = c) ∧
      c.emptyValue = emptyValue := by
  intro c
  have h : c.Records (history edits) := records_run emptyValue edits
  refine ⟨h, ?_, h.ordered.distinct, h.ordered.strictly_increasing, h.find?, ?_, ?_, ?_,
    run_emptyValue _ edits⟩
  · exact h.ordered.ascending.imp Binary64.totalLE_iff.mpr
  · intro key hkey
    exact h.filter_of_isNaN hkey
  · intro s
    exact add_samples s h.ordered.ascending
  · intro s hs
    exact if_pos hs

/-- The two zeros are one key, and a NaN under which there are two samples keeps both. -/
theorem run_samples_zeros_and_nans :
    ((empty (zero false)).run [.add ⟨zero true, nan true⟩]).hasKey (zero false) = true ∧
      ((empty (zero false)).run [.add ⟨zero true, nan true⟩]).add ⟨zero false, zero true⟩ =
        (empty (zero false)).run [.add ⟨zero true, nan true⟩] ∧
      (nan true).isNaN = true ∧
      ((empty (zero false)).run
          [.add ⟨nan true, zero true⟩, .add ⟨nan true, zero false⟩]).samples.filter
            (fun s => s.key = nan true) = [⟨nan true, zero true⟩, ⟨nan true, zero false⟩] := by
  have hkey : ((empty (zero false)).run [.add ⟨zero true, nan true⟩]).hasKey (zero false) =
    true := by decide
  have hnan : (nan true).isNaN = true := by decide
  obtain ⟨-, -, -, -, -, -, -, hadd, -⟩ :=
    run_samples_eq_sorted_history (zero false) [.add ⟨zero true, nan true⟩]
  obtain ⟨-, -, -, -, -, hnans, -⟩ := run_samples_eq_sorted_history (zero false)
    [.add ⟨nan true, zero true⟩, .add ⟨nan true, zero false⟩]
  exact ⟨hkey, hadd ⟨zero false, zero true⟩ hkey, hnan, (hnans (nan true) hnan).trans (by decide)⟩

end SampledCurve

end Lookout

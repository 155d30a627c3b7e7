/-
Lookout.Proofs.Curve.Replacement — reading a table into a curve replaces all of
its samples or none.

Reading works on the curve in place: the samples are taken out, and those of the
table are added one after the other. Had one of these steps failed, the curve
would be left with what the steps before it made of it. `InPlace` has programs
that fail in this way, and `runOn_tryParseInPlace` says that reading is none: the
table is read as a whole before the first sample is taken out, so a text fails
where nothing has been changed. When the first sample is added nothing of the old
curve is left that could stand against it.
-/
import Lookout.InPlace
import Lookout.Numeric.Binary64.Arithmetic
import Lookout.Proofs.Curve.Contents
import Lookout.Proofs.Curve.Faults

namespace Lookout

namespace SampledCurve

/-! ## Programs on a curve -/

/-- Reads a table, takes all samples out and adds those of the table. -/
def tryParseInPlace (text : List Char) : InPlace TableError (SampledCurve Binary64) Unit := do
  let samples ← MonadExcept.ofExcept (Table.read text)
  unless samples.isEmpty do
    modify fun c => { c with samples := [] }
    samples.forM fun s => modify fun c => c.add s

/-- Reads a table and passes over its faults. -/
def parseInPlace (text : List Char) : InPlace TableError (SampledCurve Binary64) Unit :=
  tryCatch (tryParseInPlace text) fun _ => pure ()

theorem runOn_forM_add (samples : List (Sample Binary64)) (c : SampledCurve Binary64) :
    (samples.forM fun s => modify fun c => c.add s :
        InPlace TableError (SampledCurve Binary64) Unit).runOn c = (.ok (), c.addAll samples) := by
  induction samples generalizing c with
  | nil => rfl
  | cons s rest ih => exact ih (c.add s)

/-- **A table is read into a curve at once or not at all.** -/
theorem runOn_tryParseInPlace (text : List Char) (c : SampledCurve Binary64) :
    (tryParseInPlace text).runOn c = ((c.tryParse text).map fun _ => (), c.parse text) := by
  rw [tryParse_eq, parse_eq, replacement?]
  cases hread : Table.read text with
  | error e =>
    simp only [tryParseInPlace, hread]
    rfl
  | ok samples =>
    cases samples with
    | nil =>
      simp only [tryParseInPlace, hread]
      rfl
    | cons s rest =>
      simp only [tryParseInPlace, hread]
      exact runOn_forM_add (s :: rest) (empty c.emptyValue)

theorem runOn_parseInPlace (text : List Char) (c : SampledCurve Binary64) :
    (parseInPlace text).runOn c = (.ok (), ((tryParseInPlace text).runOn c).2) := by
  simp only [InPlace.runOn, parseInPlace, ExceptT.run_tryCatch, StateT.run_bind]
  cases (tryParseInPlace text).run.run c with
  | mk result left =>
    cases result <;> rfl

/-! ## All or nothing -/

theorem isOk_tryParse_iff (c : SampledCurve Binary64) (text : List Char) :
    (c.tryParse text).isOk = true ↔ Table.IsTable text := by
  simp only [tryParse_eq, isOk_iff, map_eq_ok_iff, Table.isTable_iff, Table.read_eq_ok_iff]
  constructor
  · intro h
    obtain ⟨_, samples, hsays, -⟩ := h
    exact ⟨samples, hsays⟩
  · intro h
    obtain ⟨samples, hsays⟩ := h
    exact ⟨_, samples, hsays, rfl⟩

theorem replacement?_eq_some_iff {text : List Char} {samples : List (Sample Binary64)} :
    replacement? text = some samples ↔ text ≠ [] ∧ Table.Says text samples := by
  constructor
  · intro h
    unfold replacement? at h
    split at h
    · next read hread =>
      split at h
      · simp at h
      · next hne =>
        obtain rfl := Option.some.inj h
        refine ⟨?_, Table.read_eq_ok_iff.mp hread⟩
        rintro rfl
        obtain rfl := Except.ok.inj hread
        simp at hne
    · simp at h
  · intro h
    obtain ⟨htext, hsays⟩ := h
    simp [replacement?, Table.read_eq_ok_iff.mpr hsays, hsays.ne_nil htext]

theorem replacement?_eq_none_iff {text : List Char} :
    replacement? text = none ↔ text = [] ∨ ¬Table.IsTable text := by
  rw [Option.eq_none_iff_forall_ne_some, Table.isTable_iff]
  simp only [ne_eq, replacement?_eq_some_iff, not_and, not_exists]
  constructor
  · intro h
    by_cases htext : text = []
    · exact .inl htext
    · exact .inr fun samples => h samples htext
  · intro h samples htext
    exact h.resolve_left htext samples

/-- **Reading into a curve replaces everything or nothing**, whatever the curve
holds. It fails exactly if the text is no table, and the tolerant reader leaves the
same curve. The empty text and a text that is no table leave the curve as it is. Of
any other text the curve holds afterwards what a new curve would: the samples that the
text says, sorted and without repeated keys, and none of those that it held before.
What it is without samples stays the same. -/
theorem parse_all_or_nothing (c : SampledCurve Binary64) (text : List Char) :
    let left := ((tryParseInPlace text).runOn c).2
    (((tryParseInPlace text).runOn c).1.isOk = true ↔ Table.IsTable text) ∧
      (parseInPlace text).runOn c = (.ok (), left) ∧
      c.tryParse text = ((tryParseInPlace text).runOn c).1.map (fun _ => left) ∧
      c.parse text = left ∧
      (text = [] ∨ ¬Table.IsTable text → left = c) ∧
      (text ≠ [] → Table.IsTable text →
        left.emptyValue = c.emptyValue ∧
        (∀ emptyValue, left.samples = ((empty emptyValue).parse text).samples) ∧
        ∃ samples, Table.Says text samples ∧ samples ≠ [] ∧
          left.samples =
            (withoutRepeats [] samples).mergeSort fun s t => s.key.totalLE t.key) := by
  intro left
  have hleft : left = c.parse text := congrArg Prod.snd (runOn_tryParseInPlace text c)
  refine ⟨?_, runOn_parseInPlace text c, ?_, hleft.symm, ?_, ?_⟩
  · rw [← isOk_tryParse_iff c, runOn_tryParseInPlace]
    cases c.tryParse text <;> rfl
  · rw [hleft, runOn_tryParseInPlace]
    simp only [parse]
    cases c.tryParse text <;> rfl
  · intro h
    rw [hleft, parse_eq, replacement?_eq_none_iff.mpr h]
    rfl
  · intro htext htable
    obtain ⟨samples, hsays⟩ := Table.isTable_iff.mp htable
    have hparse (d : SampledCurve Binary64) :
        d.parse text = (empty d.emptyValue).addAll samples := by
      rw [parse_eq, replacement?_eq_some_iff.mpr ⟨htext, hsays⟩]
      rfl
    refine ⟨?_, ?_, samples, hsays, hsays.ne_nil htext, ?_⟩
    · rw [hleft, parse_emptyValue]
    · intro emptyValue
      rw [hleft, hparse, hparse]
      exact samples_addAll_empty _ _ samples
    · rw [hleft, hparse]
      exact (records_empty c.emptyValue).addAll samples

/-- Of `1,7;2,8` a curve keeps neither its value under 1 nor its key 5, and a fault
in the last segment of `1,7;2` keeps the curve as it is, as the empty text does. -/
theorem parse_all_or_nothing_known_key :
    let c := (empty 0).addAll [⟨.ofNat 5, .ofNat 6⟩, ⟨.ofNat 1, .ofNat 2⟩]
    let good := ['1', ',', '7', ';', '2', ',', '8']
    let bad := ['1', ',', '7', ';', '2']
    good ≠ [] ∧ Table.IsTable good ∧
      ((tryParseInPlace good).runOn c).2.samples = [⟨.ofNat 1, .ofNat 7⟩, ⟨.ofNat 2, .ofNat 8⟩] ∧
      ¬Table.IsTable bad ∧ ((tryParseInPlace bad).runOn c).2 = c ∧
      ((tryParseInPlace []).runOn c).2 = c := by
  intro c good bad
  have hgood : Table.IsTable good := (isOk_tryParse_iff c good).mp (by decide +kernel)
  have hbad : ¬Table.IsTable bad := by
    rw [← isOk_tryParse_iff c]
    decide +kernel
  obtain ⟨-, -, -, -, -, hreplaced⟩ := parse_all_or_nothing c good
  obtain ⟨-, -, -, -, hkept, -⟩ := parse_all_or_nothing c bad
  obtain ⟨-, -, -, -, hempty, -⟩ := parse_all_or_nothing c []
  obtain ⟨-, hfresh, -⟩ := hreplaced (by simp [good]) hgood
  exact ⟨by simp [good], hgood, (hfresh 0).trans (by decide +kernel), hbad, hkept (.inr hbad),
    hempty (.inl rfl)⟩

end SampledCurve

end Lookout

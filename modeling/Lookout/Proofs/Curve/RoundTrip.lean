/-
Lookout.Proofs.Curve.RoundTrip — what becomes of a curve that is written and
read again, as a table and in JSON.

1. Every curve that can come about is well formed: its samples are ordered,
   and its empty value is that of its domain (`wellFormed_run`).
2. Reading the table of a well-formed curve gives `reread`: the samples under
   numbers, which keep their keys and their order, and behind them those under
   a NaN, which has lost its sign (`ofText_text`).
3. A reread curve is read back as it is, and without negative NaN keys the
   text was the same from the start.
4. A table needs no escapes in JSON, so the string of a curve is read back as
   its table is.
-/
import Lookout.Proofs.Curve.Domain
import Lookout.Proofs.Curve.WrittenTable
import Lookout.Proofs.Json.Quote

namespace Lookout

namespace SampledCurve

/-! ## Reread samples -/

/-- Samples as they come back from their table: those under a NaN come last. -/
def reread (samples : List (Sample Binary64)) : List (Sample Binary64) :=
  (samples.filter fun s => !s.key.isNaN).map Sample.canonical ++
    (samples.filter fun s => s.key.isNaN).map Sample.canonical

theorem reread_reread (samples : List (Sample Binary64)) :
    reread (reread samples) = reread samples := by
  simp [reread, List.filter_append, List.filter_map, Function.comp_def]

theorem canonical_beq (x y : Binary64) : (x.canonical == y.canonical) = (x == y) := by
  rw [Bool.eq_iff_iff, Binary64.beq_iff, Binary64.beq_iff]
  simp only [Binary64.isNaN_canonical]
  refine and_congr_right fun hx => and_congr_right fun hy => ?_
  rw [Binary64.canonical_of_not_isNaN hx, Binary64.canonical_of_not_isNaN hy]

theorem position_canonical_of_not_isNaN {s : Sample Binary64} (h : s.key.isNaN = false) :
    s.canonical.position = s.position := by
  simp [Sample.position, Binary64.canonical_of_not_isNaN h]

theorem position_canonical_of_isNaN {s : Sample Binary64} (h : s.key.isNaN = true) :
    s.canonical.position = (Binary64.nan false).totalKey := by
  simp [Sample.position, Binary64.canonical_of_isNaN h]

theorem sortBy_map_canonical {samples : List (Sample Binary64)}
    (h : Ascending Sample.position samples) :
    sortBy Sample.position (samples.map Sample.canonical) = reread samples := by
  have hnumbers : Ascending Sample.position
      ((samples.map Sample.canonical).filter fun s => !s.key.isNaN) := by
    rw [Ascending, List.pairwise_filter, List.pairwise_map]
    refine h.imp ?_
    intro s t hle hs ht
    simp only [Sample.key_canonical, Binary64.isNaN_canonical, Bool.not_eq_true'] at hs ht
    rwa [position_canonical_of_not_isNaN hs, position_canonical_of_not_isNaN ht]
  have hnans : Ascending Sample.position
      ((samples.map Sample.canonical).filter fun s => !!s.key.isNaN) := by
    rw [Ascending, List.pairwise_filter, List.pairwise_map]
    refine List.pairwise_of_forall ?_
    intro s t hs ht
    simp only [Sample.key_canonical, Binary64.isNaN_canonical, Bool.not_not] at hs ht
    rw [position_canonical_of_isNaN hs, position_canonical_of_isNaN ht]
  rw [sortBy_eq_filter_append hnumbers hnans]
  · simp [reread, List.filter_map, Function.comp_def]
  · intro s _ t ht hsNaN htNaN
    simp only [Bool.not_eq_true', Bool.not_eq_false'] at hsNaN htNaN
    obtain ⟨u, -, rfl⟩ := List.mem_map.mp ht
    refine Binary64.totalKey_lt_of_isNaN hsNaN htNaN ?_
    rw [Sample.key_canonical, Binary64.isNaN_canonical] at htNaN
    rw [Sample.key_canonical, Binary64.canonical_of_isNaN htNaN]
    rfl

/-- If no key is a negative NaN, the order stays. -/
theorem reread_eq_map {samples : List (Sample Binary64)}
    (h : Ascending Sample.position samples)
    (hsign : ∀ s ∈ samples, s.key.isNaN = true → s.key.negative = false) :
    reread samples = samples.map Sample.canonical := by
  have hsplit : samples =
      (samples.filter fun s => !s.key.isNaN) ++ samples.filter fun s => !!s.key.isNaN := by
    conv_lhs => rw [← sortBy_of_ascending h]
    refine sortBy_eq_filter_append (h.filter _) (h.filter _) fun s _ t ht hs htNaN => ?_
    simp only [Bool.not_eq_true', Bool.not_eq_false'] at hs htNaN
    exact Binary64.totalKey_lt_of_isNaN hs htNaN (hsign t ht htNaN)
  simp only [Bool.not_not] at hsplit
  conv_rhs => rw [hsplit, List.map_append]
  rfl

/-- Adding the samples of an ordered list as they come back gives the reread list. -/
theorem addAll_map_canonical {samples : List (Sample Binary64)} (h : Ordered samples)
    (emptyValue : Binary64) :
    (empty emptyValue).addAll (samples.map Sample.canonical) = ⟨reread samples, emptyValue⟩ := by
  have hdistinct : (samples.map Sample.canonical).Pairwise fun s t => (s.key == t.key) = false := by
    rw [List.pairwise_map]
    exact h.distinct.imp fun hst => (canonical_beq _ _).trans hst
  have hrecords := (records_empty emptyValue).addAll (samples.map Sample.canonical)
  rw [List.nil_append, Records, withoutRepeats_of_distinct (by simpa using hdistinct),
    sortBy_map_canonical h.ascending] at hrecords
  rw [← hrecords]
  exact congrArg (SampledCurve.mk _) (addAll_emptyValue _ _)

end SampledCurve

namespace DomainCurve

open Binary64 (zero infinity nan)
open SampledCurve (Ordered)

variable {domain : Domain}

/-! ## Text -/

/-- A curve as it comes back from its text. -/
def reread (c : DomainCurve domain) : DomainCurve domain :=
  ⟨⟨SampledCurve.reread c.curve.samples, domain.emptyValue⟩⟩

theorem ofText_text {c : DomainCurve domain} (h : Ordered c.curve.samples) :
    ofText c.text = .ok c.reread := by
  rw [ofText_eq, text, SampledCurve.text, Table.read_write]
  exact congrArg (fun curve => Except.ok (DomainCurve.mk curve))
    (SampledCurve.addAll_map_canonical h _)

theorem ofText_text_reread {c : DomainCurve domain} (h : Ordered c.curve.samples) :
    ofText c.reread.text = .ok c.reread := by
  rw [ofText_text (wellFormed_ofText (ofText_text h)).ordered]
  simp only [reread, SampledCurve.reread_reread]

theorem text_reread {c : DomainCurve domain} (h : Ordered c.curve.samples)
    (hsign : ∀ s ∈ c.curve.samples, s.key.isNaN = true → s.key.negative = false) :
    c.reread.text = c.text := by
  simp only [text, SampledCurve.text, reread, SampledCurve.reread_eq_map h.ascending hsign,
    Table.write_map_canonical]

/-! ## JSON -/

theorem plain_of_mem_text {c : DomainCurve domain} {char : Char} (h : char ∈ c.text) :
    char ≠ '"' ∧ char ≠ '\\' ∧ ¬ char < ' ' := by
  rcases Table.isNumeralChar_of_mem_write h with hchar | rfl | rfl
  · have hcode := Numeral.toNat_of_isNumeralChar hchar
    refine ⟨?_, ?_, fun hcontrol => ?_⟩
    · rintro rfl
      revert hchar
      decide
    · rintro rfl
      revert hchar
      decide
    · have : char.toNat < 32 := hcontrol
      omega
  · decide
  · decide

theorem toJsonText_eq (c : DomainCurve domain) : c.toJsonText = '"' :: (c.text ++ ['"']) :=
  Json.quote_eq_of_plain fun _ => plain_of_mem_text

theorem ofJsonText_toJsonText (c : DomainCurve domain) :
    (ofJsonText c.toJsonText : Except CurveJsonError (DomainCurve domain)) =
      (ofText c.text).mapError .malformedTable := by
  simp only [ofJsonText, toJsonText, Json.read?_quote]

/-- Every curve that comes about by any edits is read back from its own text:
the samples under numbers with their keys and in their order, and behind them
those under NaNs. The text is the same again unless a key is a negative NaN,
and from the second time on nothing changes. JSON gives the same curve. -/
theorem run_text_roundTrip (edits : List Edit) :
    let c : DomainCurve domain := run edits
    ∃ d : DomainCurve domain, ofText c.text = .ok d ∧
      d.curve.samples =
        (c.curve.samples.filter fun s => !s.key.isNaN).map (fun s => ⟨s.key, s.value.canonical⟩) ++
          (c.curve.samples.filter fun s => s.key.isNaN).map
            (fun s => ⟨Binary64.nan false, s.value.canonical⟩) ∧
      d.curve.emptyValue = c.curve.emptyValue ∧
      ((∀ s ∈ c.curve.samples, s.key.isNaN = true → s.key.negative = false) → d.text = c.text) ∧
      ofText d.text = .ok d ∧
      c.toJsonText = '"' :: (c.text ++ ['"']) ∧
      ofJsonText c.toJsonText = .ok d ∧
      ofJson (.string c.text) = .ok d := by
  intro c
  have hc : c.WellFormed := wellFormed_run edits
  have hread : ofText c.text = .ok c.reread := ofText_text hc.ordered
  refine ⟨c.reread, hread, ?_, hc.emptyValue.symm, text_reread hc.ordered,
    ofText_text_reread hc.ordered, c.toJsonText_eq, ?_, ?_⟩
  · refine congrArg₂ (· ++ ·) (List.map_congr_left fun s hs => ?_)
      (List.map_congr_left fun s hs => ?_)
    · have : s.key.isNaN = false := by simpa using (List.mem_filter.mp hs).2
      rw [Sample.canonical, Binary64.canonical_of_not_isNaN this]
    · rw [Sample.canonical, Binary64.canonical_of_isNaN (List.mem_filter.mp hs).2]
  · rw [ofJsonText_toJsonText, mapError_eq_ok_iff, hread]
  · exact mapError_eq_ok_iff.mpr hread

/-- Three samples, among them one under a negative zero and one under a NaN: the
sign of the NaN value is lost, but the text stays as it is. -/
theorem run_text_of_three_samples :
    let c : DomainCurve .visualAngle :=
      run [.add (nan false) 1, .ofText ['x'], .add 1 (infinity true), .add (zero true) (nan true)]
    c.text = "-0,NaN;1,-inf;NaN,1".toList ∧
      (∀ s ∈ c.curve.samples, s.key.isNaN = true → s.key.negative = false) ∧
      ∃ d : DomainCurve .visualAngle, ofText c.text = .ok d ∧ d.text = c.text ∧
        d.curve.samples = [⟨zero true, nan false⟩, ⟨1, infinity true⟩, ⟨nan false, 1⟩] := by
  intro c
  have hsign : ∀ s ∈ c.curve.samples, s.key.isNaN = true → s.key.negative = false := by
    decide +kernel
  obtain ⟨d, hread, hsamples, -, htext, -⟩ := @run_text_roundTrip .visualAngle
    [.add (nan false) 1, .ofText ['x'], .add 1 (infinity true), .add (zero true) (nan true)]
  refine ⟨by decide +kernel, hsign, d, hread, htext hsign, hsamples.trans ?_⟩
  decide +kernel

end DomainCurve

end Lookout

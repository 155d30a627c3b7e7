/-
Lookout.Proofs.Curve.WrittenTable — the table that is written for some samples
reads back as these samples.

Numerals hold neither of the two separators, so cutting a written table gives
back its segments and their fields. What is lost of a sample is what its
numerals do not show: the sign and the payload of a NaN.
-/
import Lookout.Proofs.Curve.TableGrammar
import Lookout.Proofs.Numeric.PlainText

namespace Lookout

/-- A sample as it comes back from its segment. -/
def Sample.canonical (s : Sample Binary64) : Sample Binary64 := ⟨s.key.canonical, s.value.canonical⟩

@[simp] theorem Sample.key_canonical (s : Sample Binary64) : s.canonical.key = s.key.canonical :=
  rfl

@[simp] theorem Sample.canonical_canonical (s : Sample Binary64) :
    s.canonical.canonical = s.canonical := by
  simp [Sample.canonical]

namespace Table

/-! ## Characters -/

theorem isNumeralChar_of_mem_segment {s : Sample Binary64} {c : Char} (hc : c ∈ segment s) :
    Numeral.isNumeralChar c = true ∨ c = ',' := by
  rcases List.mem_append.mp hc with hkey | hvalue
  · exact .inl (Binary64.isNumeralChar_of_mem_shortestText hkey)
  · rcases List.mem_cons.mp hvalue with rfl | hvalue
    · exact .inr rfl
    · exact .inl (Binary64.isNumeralChar_of_mem_shortestText hvalue)

theorem isNumeralChar_of_mem_write {samples : List (Sample Binary64)} {c : Char}
    (hc : c ∈ write samples) : Numeral.isNumeralChar c = true ∨ c = ',' ∨ c = ';' := by
  induction samples with
  | nil => simp [write] at hc
  | cons s rest ih =>
    cases rest with
    | nil =>
      simp only [write, List.map_cons, List.map_nil, List.intercalate_singleton] at hc
      exact (isNumeralChar_of_mem_segment hc).imp_right .inl
    | cons t rest =>
      simp only [write, List.map_cons, List.intercalate_cons_cons, List.mem_append,
        List.mem_singleton] at hc ih
      rcases hc with (hc | rfl) | hc
      · exact (isNumeralChar_of_mem_segment hc).imp_right .inl
      · exact .inr (.inr rfl)
      · exact ih hc

/-! ## Reading a written table -/

theorem fieldSays_shortestText (x : Binary64) : FieldSays x.shortestText x.canonical := by
  obtain ⟨n, hwritten, hvalue⟩ := x.exists_written_shortestText
  exact ⟨x.shortestText, n, ⟨[], [], by simp, by simp, by simp⟩, hwritten,
    Numeral.roundsTo_iff.mpr hvalue⟩

theorem segmentSays_segment (s : Sample Binary64) : SegmentSays (segment s) s.canonical := by
  have hcomma {x : Binary64} : ',' ∉ x.shortestText := by
    intro h
    have := Binary64.isNumeralChar_of_mem_shortestText h
    revert this
    decide
  refine ⟨s.key.shortestText, s.value.shortestText, ⟨by simp, ?_, ?_⟩,
    fieldSays_shortestText _, fieldSays_shortestText _⟩
  · simp [hcomma]
  · simp [segment, List.intercalate_cons_cons]

theorem says_write (samples : List (Sample Binary64)) :
    Says (write samples) (samples.map Sample.canonical) := by
  cases samples with
  | nil => exact .empty
  | cons s rest =>
    have hcut : Text.IsCut ';' (write (s :: rest)) ((s :: rest).map segment) := by
      refine ⟨by simp, fun piece hpiece hmem => ?_, rfl⟩
      obtain ⟨t, -, rfl⟩ := List.mem_map.mp hpiece
      rcases isNumeralChar_of_mem_segment hmem with h | h <;> revert h <;> decide
    refine .segments hcut ?_
    rw [List.forall₂_map_left_iff, List.forall₂_map_right_iff]
    exact List.forall₂_same.mpr fun t _ => segmentSays_segment t

/-- **Reading undoes writing**, up to the signs and the payloads of NaNs. -/
theorem read_write (samples : List (Sample Binary64)) :
    read (write samples) = .ok (samples.map Sample.canonical) :=
  read_eq_ok_iff.mpr (says_write samples)

/-- Nothing is written that does not come back. -/
theorem write_map_canonical (samples : List (Sample Binary64)) :
    write (samples.map Sample.canonical) = write samples := by
  have hsegment (s : Sample Binary64) : segment s.canonical = segment s := by
    simp only [segment, Sample.canonical, Binary64.shortestText_canonical]
  simp only [write, List.map_map, Function.comp_def, hsegment]

end Table

end Lookout

/-
Lookout.Proofs.Curve.TableGrammar — `Table.read` accepts exactly the sample
tables and returns exactly the samples that they say.

A table is the empty text, or what is cut at every semicolon into segments; a
segment is what is cut at every comma into exactly two fields; a field is a
numeral with blanks around it. `Table.Says` is this grammar together with its
meaning, one sample for each segment, and `Table.read_eq_ok_iff` says that
reading computes it.
-/
import Lookout.Curve.Text
import Lookout.Proofs.Numeric.Numeral
import Lookout.Proofs.Results

namespace Lookout

/-- A numeral holds no blank, so all blanks in a field are around it. -/
theorem Numeral.Written.isTrimmed {n : Numeral} {token field : List Char}
    (h : Numeral.Written n token) (hpadded : Text.IsPadded token field) :
    Text.IsTrimmed token field := by
  have hblank (c : Char) (hc : c ∈ token) : Text.isBlank c = false :=
    Numeral.isBlank_eq_false_of_isNumeralChar (h.isNumeralChar c hc)
  exact ⟨hpadded, fun c hc => hblank c (List.mem_of_mem_head? hc),
    fun c hc => hblank c (List.mem_of_getLast? hc)⟩

namespace Table

open Text (IsCut IsPadded)

/-! ## Grammar -/

def IsField (field : List Char) : Prop :=
  ∃ token n, IsPadded token field ∧ Numeral.Written n token

def IsSegment (segment : List Char) : Prop :=
  ∃ key value, IsCut ',' segment [key, value] ∧ IsField key ∧ IsField value

def IsTable (text : List Char) : Prop :=
  text = [] ∨ ∃ segments, IsCut ';' text segments ∧ ∀ segment ∈ segments, IsSegment segment

/-! ## Meaning -/

/-- A field says the number to which its numeral rounds. -/
def FieldSays (field : List Char) (x : Binary64) : Prop :=
  ∃ token n, IsPadded token field ∧ Numeral.Written n token ∧ n.RoundsTo x

def SegmentSays (segment : List Char) (s : Sample Binary64) : Prop :=
  ∃ key value, IsCut ',' segment [key, value] ∧ FieldSays key s.key ∧ FieldSays value s.value

/-- A table says one sample for each of its segments, in their order. -/
inductive Says : List Char → List (Sample Binary64) → Prop where
  | empty : Says [] []
  | segments {text segments samples} : IsCut ';' text segments →
      List.Forall₂ SegmentSays segments samples → Says text samples

theorem isField_iff {field : List Char} : IsField field ↔ ∃ x, FieldSays field x := by
  constructor
  · intro h
    obtain ⟨token, n, hpadded, hwritten⟩ := h
    exact ⟨n.toBinary64, token, n, hpadded, hwritten, Numeral.roundsTo_iff.mpr rfl⟩
  · intro h
    obtain ⟨x, token, n, hpadded, hwritten, -⟩ := h
    exact ⟨token, n, hpadded, hwritten⟩

theorem isSegment_iff {segment : List Char} : IsSegment segment ↔ ∃ s, SegmentSays segment s := by
  constructor
  · intro h
    obtain ⟨key, value, hcut, hkey, hvalue⟩ := h
    obtain ⟨x, hx⟩ := isField_iff.mp hkey
    obtain ⟨y, hy⟩ := isField_iff.mp hvalue
    exact ⟨⟨x, y⟩, key, value, hcut, hx, hy⟩
  · intro h
    obtain ⟨s, key, value, hcut, hkey, hvalue⟩ := h
    exact ⟨key, value, hcut, isField_iff.mpr ⟨_, hkey⟩, isField_iff.mpr ⟨_, hvalue⟩⟩

theorem forall_isSegment_iff {segments : List (List Char)} :
    (∀ segment ∈ segments, IsSegment segment) ↔
      ∃ samples, List.Forall₂ SegmentSays segments samples := by
  simp only [exists_forall₂_iff, isSegment_iff]

theorem isTable_iff {text : List Char} : IsTable text ↔ ∃ samples, Says text samples := by
  constructor
  · intro h
    obtain rfl | ⟨segments, hcut, hsegments⟩ := h
    · exact ⟨[], .empty⟩
    · obtain ⟨samples, hsays⟩ := forall_isSegment_iff.mp hsegments
      exact ⟨samples, .segments hcut hsays⟩
  · intro h
    obtain ⟨samples, hsays⟩ := h
    cases hsays with
    | empty => exact .inl rfl
    | segments hcut hsays => exact .inr ⟨_, hcut, forall_isSegment_iff.mpr ⟨_, hsays⟩⟩

/-! ## Reading -/

theorem readField_eq_ok_iff {index : Nat} {field : List Char} {x : Binary64} :
    readField index field = .ok x ↔ FieldSays field x := by
  constructor
  · intro h
    refine ⟨Text.trim field, ?_⟩
    simp only [readField] at h
    split at h
    · simp at h
    · split at h
      · next hx =>
        obtain rfl := Except.ok.inj h
        obtain ⟨n, hwritten, hrounds⟩ := Numeral.ofText?_eq_some_iff.mp hx
        exact ⟨n, Text.isPadded_trim field, hwritten, hrounds⟩
      · simp at h
  · intro h
    obtain ⟨token, n, hpadded, hwritten, hrounds⟩ := h
    have htrim : Text.trim field = token := Text.isTrimmed_iff.mp (hwritten.isTrimmed hpadded)
    have hread := Numeral.ofText?_eq_some_iff.mpr ⟨n, hwritten, hrounds⟩
    simp [readField, htrim, hread, hwritten.ne_nil]

theorem readSegment_eq_ok_iff {index : Nat} {segment : List Char} {s : Sample Binary64} :
    readSegment index segment = .ok s ↔ SegmentSays segment s := by
  simp only [SegmentSays, Text.isCut_iff]
  unfold readSegment
  split
  · next key value hcut =>
    simp only [bind_eq_ok_iff, readField_eq_ok_iff, pure, Except.pure, Except.ok.injEq]
    constructor
    · intro h
      obtain ⟨x, hx, y, hy, rfl⟩ := h
      exact ⟨key, value, hcut, hx, hy⟩
    · intro h
      obtain ⟨key', value', hpieces, hkey, hvalue⟩ := h
      obtain ⟨rfl, rfl⟩ : key = key' ∧ value = value' := by simpa [hcut] using hpieces
      exact ⟨s.key, hkey, s.value, hvalue, rfl⟩
  · next hcut =>
    simp only [reduceCtorEq, false_iff]
    intro h
    obtain ⟨key, value, hpieces, -⟩ := h
    exact hcut key value hpieces

/-- The empty text has one field, so it is a table but no segment. -/
theorem not_segmentSays_nil (s : Sample Binary64) : ¬ SegmentSays [] s := by
  intro h
  obtain ⟨key, value, hcut, -⟩ := h
  simp [Text.isCut_iff] at hcut

theorem readSegments_eq_ok_iff {index : Nat} {segments : List (List Char)}
    {samples : List (Sample Binary64)} :
    readSegments index segments = .ok samples ↔ List.Forall₂ SegmentSays segments samples := by
  induction segments generalizing index samples with
  | nil => simp [readSegments, eq_comm]
  | cons segment rest ih =>
    simp only [readSegments, bind_eq_ok_iff, readSegment_eq_ok_iff, ih, pure, Except.pure,
      Except.ok.injEq, List.forall₂_cons_left_iff]
    grind

/-- **The grammar is what is read.** -/
theorem read_eq_ok_iff {text : List Char} {samples : List (Sample Binary64)} :
    read text = .ok samples ↔ Says text samples := by
  unfold read
  split
  · next hempty =>
    obtain rfl := List.isEmpty_iff.mp hempty
    constructor
    · intro h
      obtain rfl := Except.ok.inj h
      exact .empty
    · intro h
      cases h with
      | empty => rfl
      | segments hcut hsays =>
        obtain rfl := Text.isCut_iff.mp hcut
        rw [List.splitOn_nil] at hsays
        cases hsays with
        | cons hsegment _ => exact absurd hsegment (not_segmentSays_nil _)
  · next hne =>
    rw [readSegments_eq_ok_iff]
    constructor
    · exact .segments (Text.isCut_iff.mpr rfl)
    · intro h
      cases h with
      | empty => simp at hne
      | segments hcut hsays => exact Text.isCut_iff.mp hcut ▸ hsays

/-- Only the empty text is a table without samples. -/
theorem Says.ne_nil {text : List Char} {samples : List (Sample Binary64)} (h : Says text samples)
    (htext : text ≠ []) : samples ≠ [] := by
  cases h with
  | empty => exact absurd rfl htext
  | segments hcut hsays =>
    rintro rfl
    obtain rfl := List.forall₂_nil_right_iff.mp hsays
    exact hcut.1 rfl

/-- A text is accepted exactly if it is a table, and the samples that are read
from it are exactly those that it says. -/
theorem canParse_and_read_iff_grammar (text : List Char) :
    (SampledCurve.canParse text = true ↔ IsTable text) ∧
      ∀ samples, read text = .ok samples ↔ Says text samples :=
  ⟨by rw [SampledCurve.canParse, isOk_iff, isTable_iff]; simp only [read_eq_ok_iff],
    fun _ => read_eq_ok_iff⟩

end Table

end Lookout

/-
Lookout.Proofs.Curve.Faults — the fault that is reported of a text that is no
sample table.

A text may have many faults, several of them in one segment. Which one counts
is said without the reader:

  * `FieldFault`     — a field is blank, or what it holds is no numeral;
  * `SegmentFault`   — a segment has too few or too many fields, or else its
                       key is at fault, or else its value;
  * `FirstMalformed` — of all segments the first malformed one counts.

Reading reports exactly this fault (`read_eq_error_iff`). What the text says
behind it plays no part, for it is no part of `FirstMalformed` either.
-/
import Lookout.Proofs.Curve.TableGrammar

namespace Lookout

/-- The index of the segment at fault. -/
def TableError.index : TableError → Nat
  | .fieldCount index _ _ => index
  | .emptyNumber index => index
  | .invalidNumber index _ => index

theorem Binary64.ofText?_eq_none_iff {text : List Char} :
    Binary64.ofText? text = none ↔ ∀ n, ¬Numeral.Written n text := by
  rw [Option.eq_none_iff_forall_ne_some]
  constructor
  · intro h n hwritten
    exact h n.toBinary64
      (Numeral.ofText?_eq_some_iff.mpr ⟨n, hwritten, Numeral.roundsTo_iff.mpr rfl⟩)
  · intro h x hx
    obtain ⟨n, hwritten, -⟩ := Numeral.ofText?_eq_some_iff.mp hx
    exact h n hwritten

namespace Table

open Text (IsCut IsTrimmed)

/-! ## The fault that counts -/

/-- What is wrong with a field of the segment `index`. -/
inductive FieldFault (index : Nat) (field : List Char) : TableError → Prop where
  | blank : (∀ c ∈ field, Text.isBlank c = true) → FieldFault index field (.emptyNumber index)
  | invalid {token : List Char} : IsTrimmed token field → token ≠ [] →
      (∀ n, ¬Numeral.Written n token) → FieldFault index field (.invalidNumber index token)

/-- What is wrong with the segment `index`. Its value counts only behind a good key. -/
inductive SegmentFault (index : Nat) (segment : List Char) : TableError → Prop where
  | fieldCount : segment.count ',' + 1 ≠ 2 →
      SegmentFault index segment (.fieldCount index segment (segment.count ',' + 1))
  | key {key value : List Char} {e : TableError} : IsCut ',' segment [key, value] →
      FieldFault index key e → SegmentFault index segment e
  | value {key value : List Char} {e : TableError} : IsCut ',' segment [key, value] →
      IsField key → FieldFault index value e → SegmentFault index segment e

/-- The first malformed segment of a text, the segments before it, and `head`, the
text up to its end. -/
structure FirstMalformed (text head : List Char) (before : List (List Char))
    (segment : List Char) : Prop where
  cut : IsCut ';' head (before ++ [segment])
  isSegment : ∀ earlier ∈ before, IsSegment earlier
  malformed : ¬IsSegment segment
  begins : text = head ∨ ∃ tail, text = head ++ ';' :: tail

theorem FieldFault.index_eq {index : Nat} {field : List Char} {e : TableError}
    (h : FieldFault index field e) : e.index = index := by
  cases h <;> rfl

theorem SegmentFault.index_eq {index : Nat} {segment : List Char} {e : TableError}
    (h : SegmentFault index segment e) : e.index = index := by
  cases h with
  | fieldCount _ => rfl
  | key _ hkey => exact hkey.index_eq
  | value _ _ hvalue => exact hvalue.index_eq

/-! ## Reading -/

theorem readField_eq_error_iff {index : Nat} {field : List Char} {e : TableError} :
    readField index field = .error e ↔ FieldFault index field e := by
  constructor
  · intro h
    simp only [readField] at h
    split at h
    · next hblank =>
      obtain rfl := Except.error.inj h
      exact .blank (Text.trim_eq_nil_iff.mp (List.isEmpty_iff.mp hblank))
    · next hne =>
      split at h
      · simp at h
      · next hnone =>
        obtain rfl := Except.error.inj h
        exact .invalid (Text.isTrimmed_trim field) (mt List.isEmpty_iff.mpr hne)
          (Binary64.ofText?_eq_none_iff.mp hnone)
  · intro h
    cases h with
    | blank hblank => simp [readField, Text.trim_eq_nil_iff.mpr hblank]
    | invalid htoken hne hnone =>
      simp [readField, Text.isTrimmed_iff.mp htoken, hne, Binary64.ofText?_eq_none_iff.mpr hnone]

theorem readSegment_eq_error_iff {index : Nat} {segment : List Char} {e : TableError} :
    readSegment index segment = .error e ↔ SegmentFault index segment e := by
  constructor
  · intro h
    unfold readSegment at h
    split at h
    · next key value hcut =>
      have hcut := Text.isCut_iff.mpr hcut
      rcases bind_eq_error_iff.mp h with hkey | ⟨x, hkey, h⟩
      · exact .key hcut (readField_eq_error_iff.mp hkey)
      · have hkey := isField_iff.mpr ⟨x, readField_eq_ok_iff.mp hkey⟩
        rcases bind_eq_error_iff.mp h with hvalue | ⟨y, -, h⟩
        · exact .value hcut hkey (readField_eq_error_iff.mp hvalue)
        · simp [pure, Except.pure] at h
    · next hcut =>
      obtain rfl := Except.error.inj h
      rw [Text.length_splitOn]
      refine .fieldCount fun htwo => ?_
      rw [← Text.length_splitOn] at htwo
      obtain ⟨key, value, hpieces⟩ := List.length_eq_two.mp htwo
      exact hcut key value hpieces
  · intro h
    cases h with
    | fieldCount hcount =>
      rw [← Text.length_splitOn] at hcount ⊢
      unfold readSegment
      split
      · next hcut => simp [hcut] at hcount
      · rfl
    | key hcut hkey =>
      simp [readSegment, Text.isCut_iff.mp hcut, readField_eq_error_iff.mpr hkey, bind, Except.bind]
    | value hcut hkey hvalue =>
      obtain ⟨x, hx⟩ := isField_iff.mp hkey
      have hkey : readField index _ = .ok x := readField_eq_ok_iff.mpr hx
      simp [readSegment, Text.isCut_iff.mp hcut, hkey, readField_eq_error_iff.mpr hvalue, bind,
        Except.bind]

theorem isSegment_iff_readSegment (index : Nat) {segment : List Char} :
    IsSegment segment ↔ ∃ s, readSegment index segment = .ok s := by
  simp only [isSegment_iff, readSegment_eq_ok_iff]

theorem SegmentFault.not_isSegment {index : Nat} {segment : List Char} {e : TableError}
    (h : SegmentFault index segment e) : ¬IsSegment segment := by
  rw [isSegment_iff_readSegment index, readSegment_eq_error_iff.mpr h]
  simp

theorem readSegments_eq_error_iff {index : Nat} {segments : List (List Char)} {e : TableError} :
    readSegments index segments = .error e ↔ ∃ before segment after,
      segments = before ++ segment :: after ∧ (∀ earlier ∈ before, IsSegment earlier) ∧
      SegmentFault (index + before.length) segment e := by
  induction segments generalizing index with
  | nil => simp [readSegments]
  | cons first rest ih =>
    rw [readSegments, bind_eq_error_iff, readSegment_eq_error_iff]
    constructor
    · intro h
      rcases h with hfault | ⟨s, hs, h⟩
      · exact ⟨[], first, rest, rfl, by simp, hfault⟩
      · have hfirst : IsSegment first := (isSegment_iff_readSegment index).mpr ⟨s, hs⟩
        rcases bind_eq_error_iff.mp h with hrest | ⟨samples, -, h⟩
        · obtain ⟨before, segment, after, rfl, hbefore, hfault⟩ := ih.mp hrest
          refine ⟨first :: before, segment, after, rfl, by simpa [hfirst] using hbefore, ?_⟩
          rwa [List.length_cons, Nat.add_comm before.length, ← Nat.add_assoc]
        · simp [pure, Except.pure] at h
    · intro h
      obtain ⟨before, segment, after, hsegments, hbefore, hfault⟩ := h
      cases before with
      | nil =>
        obtain ⟨rfl, rfl⟩ := List.cons.inj hsegments
        exact .inl hfault
      | cons _ before =>
        obtain ⟨rfl, rfl⟩ := List.cons.inj hsegments
        obtain ⟨hfirst, hbefore⟩ := List.forall_mem_cons.mp hbefore
        obtain ⟨s, hs⟩ := (isSegment_iff_readSegment index).mp hfirst
        refine .inr ⟨s, hs, bind_eq_error_iff.mpr (.inl (ih.mpr ⟨before, segment, after, rfl,
          hbefore, ?_⟩))⟩
        rwa [List.length_cons, Nat.add_comm before.length, ← Nat.add_assoc] at hfault

theorem read_of_ne_nil {text : List Char} (h : text ≠ []) :
    read text = readSegments 0 (text.splitOn ';') :=
  if_neg (by simpa using h)

/-! ## The first malformed segment -/

namespace FirstMalformed

variable {text head segment : List Char} {before : List (List Char)}

/-- What stands behind the first malformed segment has no part in where it is. -/
theorem replace (h : FirstMalformed text head before segment) (tail : List Char) :
    FirstMalformed (head ++ ';' :: tail) head before segment :=
  { h with begins := .inr ⟨tail, rfl⟩ }

theorem exists_after (h : FirstMalformed text head before segment) :
    ∃ after, text.splitOn ';' = before ++ segment :: after := by
  rcases h.begins with rfl | ⟨tail, rfl⟩
  · exact ⟨[], Text.isCut_iff.mp h.cut⟩
  · refine ⟨tail.splitOn ';', ?_⟩
    rw [List.splitOn_append_cons_self, Text.isCut_iff.mp h.cut, List.append_assoc]
    rfl

theorem of_splitOn {after : List (List Char)} (h : text.splitOn ';' = before ++ segment :: after)
    (hbefore : ∀ earlier ∈ before, IsSegment earlier) (hsegment : ¬IsSegment segment) :
    ∃ head, FirstMalformed text head before segment := by
  obtain ⟨-, hfree, htext⟩ := Text.isCut_iff.mpr h
  rw [List.append_cons] at hfree htext
  have hhead : IsCut ';' ([';'].intercalate (before ++ [segment])) (before ++ [segment]) :=
    ⟨by simp, fun piece hpiece => hfree piece (List.mem_append_left _ hpiece), rfl⟩
  refine ⟨_, hhead, hbefore, hsegment, ?_⟩
  cases after with
  | nil => exact .inl (by rw [← htext, List.append_nil])
  | cons next after =>
    refine .inr ⟨[';'].intercalate (next :: after), ?_⟩
    rw [← htext, Text.intercalate_append (by simp) (by simp)]

end FirstMalformed

/-- **The fault of the first malformed segment is what is read.** -/
theorem read_eq_error_iff {text : List Char} {e : TableError} :
    read text = .error e ↔ text ≠ [] ∧ ∃ head before segment,
      FirstMalformed text head before segment ∧ SegmentFault before.length segment e := by
  by_cases htext : text = []
  · simp [read, htext]
  · rw [read_of_ne_nil htext, readSegments_eq_error_iff]
    simp only [Nat.zero_add]
    constructor
    · intro h
      obtain ⟨before, segment, after, hsegments, hbefore, hfault⟩ := h
      obtain ⟨head, hfirst⟩ := FirstMalformed.of_splitOn hsegments hbefore hfault.not_isSegment
      exact ⟨htext, head, before, segment, hfirst, hfault⟩
    · intro h
      obtain ⟨-, head, before, segment, hfirst, hfault⟩ := h
      obtain ⟨after, hsegments⟩ := hfirst.exists_after
      exact ⟨before, segment, after, hsegments, hfirst.isSegment, hfault⟩

/-- **A rejected text is blamed for its first fault.** The error counts the
segments before the first malformed one, and it is the only one that fits this
segment: the number of its fields if there are not two, or else the fault of its
key, or of its value if the key is a number. Nothing that may stand behind the
segment in place of the rest has a part in the error. -/
theorem read_error_eq_first_fault {text : List Char} {e : TableError}
    (h : read text = .error e) :
    ∃ head before segment, FirstMalformed text head before segment ∧
      e.index = before.length ∧
      (∀ e', SegmentFault before.length segment e' ↔ e' = e) ∧
      ∀ tail, read (head ++ ';' :: tail) = .error e := by
  obtain ⟨-, head, before, segment, hfirst, hfault⟩ := read_eq_error_iff.mp h
  refine ⟨head, before, segment, hfirst, hfault.index_eq, ?_, ?_⟩
  · intro e'
    rw [← readSegment_eq_error_iff, readSegment_eq_error_iff.mpr hfault, Except.error.injEq,
      eq_comm]
  · intro tail
    exact read_eq_error_iff.mpr ⟨by simp, head, before, segment, hfirst.replace tail, hfault⟩

/-- Of the three faults of ` 7 ,1; ,x;3` the blank key of the second segment counts,
also where the third segment is a good one. -/
theorem read_error_eq_first_fault_blank_key :
    let text := [' ', '7', ' ', ',', '1', ';', ' ', ',', 'x', ';', '3']
    read text = .error (.emptyNumber 1) ∧
      ∃ head before segment, FirstMalformed text head before segment ∧ before.length = 1 ∧
        read (head ++ [';', '3', ',', '4']) = .error (.emptyNumber 1) := by
  intro text
  have hread : read text = .error (.emptyNumber 1) := by decide +kernel
  obtain ⟨head, before, segment, hfirst, hindex, -, htail⟩ := read_error_eq_first_fault hread
  exact ⟨hread, head, before, segment, hfirst, hindex.symm, htail ['3', ',', '4']⟩

end Table

end Lookout

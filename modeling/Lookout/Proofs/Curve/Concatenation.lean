/-
Lookout.Proofs.Curve.Concatenation — two sample tables with a semicolon between
them are the table of the samples of both.

Cutting at semicolons cuts the joined text into the segments of both, and the
segments of the second are read as they are on their own, but for their indices
(`readSegments_add_index`). So reading the joined text is reading one table
after the other (`read_join`): the faults of the first one come first, and those of
the second count its segments on from those of the first.
-/
import Lookout.Proofs.Curve.Domain
import Lookout.Proofs.Curve.Faults

namespace Lookout

/-- The same fault with `n` more segments before it. -/
def TableError.later (n : Nat) : TableError → TableError
  | .fieldCount index segment fields => .fieldCount (index + n) segment fields
  | .emptyNumber index => .emptyNumber (index + n)
  | .invalidNumber index token => .invalidNumber (index + n) token

namespace Table

/-! ## Segments behind others -/

theorem readField_add_index (index n : Nat) (field : List Char) :
    readField (index + n) field = (readField index field).mapError (.later n) := by
  simp only [readField]
  split
  · rfl
  · split <;> rfl

theorem readSegment_add_index (index n : Nat) (segment : List Char) :
    readSegment (index + n) segment = (readSegment index segment).mapError (.later n) := by
  unfold readSegment
  split
  · simp only [readField_add_index, mapError_bind]
    rfl
  · rfl

theorem readSegments_add_index (index n : Nat) (segments : List (List Char)) :
    readSegments (index + n) segments = (readSegments index segments).mapError (.later n) := by
  induction segments generalizing index with
  | nil => rfl
  | cons segment rest ih =>
    rw [readSegments, readSegments, readSegment_add_index, Nat.add_right_comm, ih]
    simp only [mapError_bind]
    rfl

theorem readSegments_append (index : Nat) (segments segments' : List (List Char)) :
    readSegments index (segments ++ segments') = do
      let samples ← readSegments index segments
      let samples' ← readSegments (index + segments.length) segments'
      return samples ++ samples' := by
  induction segments generalizing index with
  | nil => exact (bind_pure _).symm
  | cons segment rest ih =>
    simp [readSegments, ih, Nat.add_assoc, Nat.add_comm 1]

/-! ## Joined tables -/

/-- **Joined tables are read one after the other.** -/
theorem read_join {s t : List Char} (hs : s ≠ []) (ht : t ≠ []) :
    read (s ++ ';' :: t) = do
      let samples ← read s
      let samples' ← (read t).mapError (.later (s.count ';' + 1))
      return samples ++ samples' := by
  rw [read_of_ne_nil (by simp), read_of_ne_nil hs, read_of_ne_nil ht,
    List.splitOn_append_cons_self, readSegments_append, readSegments_add_index,
    Text.length_splitOn]

theorem write_append {samples samples' : List (Sample Binary64)} (h : samples ≠ [])
    (h' : samples' ≠ []) :
    write (samples ++ samples') = write samples ++ ';' :: write samples' := by
  rw [write, List.map_append, Text.intercalate_append (by simpa using h) (by simpa using h')]
  rfl

end Table

/-! ## Curves of joined tables -/

/-- A sample whose key is stored is found where it was, whatever is added. -/
theorem SampledCurve.Records.find?_addAll {c : SampledCurve Binary64}
    {history : List (Sample Binary64)} (h : c.Records history) {key : Binary64}
    (hkey : c.hasKey key = true) (samples : List (Sample Binary64)) :
    (c.addAll samples).samples.find? (·.key == key) = c.samples.find? (·.key == key) := by
  rw [(h.addAll samples).find?, h.find?, List.find?_append]
  rw [h.hasKey, ← List.isSome_find?] at hkey
  exact Option.or_of_isSome hkey

namespace DomainCurve

variable {domain : Domain}

theorem foldl_add_eq (c : DomainCurve domain) (samples : List (Sample Binary64)) :
    samples.foldl (fun d s => d.add s.key s.value) c = ⟨c.curve.addAll samples⟩ := by
  induction samples generalizing c with
  | nil => rfl
  | cons s rest ih => exact ih (c.add s.key s.value)

theorem ofText_join {s t : List Char} {c : DomainCurve domain} {samples : List (Sample Binary64)}
    (hs : s ≠ []) (ht : t ≠ []) (hc : ofText s = .ok c) (hread : Table.read t = .ok samples) :
    ofText (s ++ ';' :: t) = .ok (samples.foldl (fun d s => d.add s.key s.value) c) := by
  rw [ofText_eq, map_eq_ok_iff] at hc
  obtain ⟨earlier, hearlier, rfl⟩ := hc
  rw [ofText_eq, Table.read_join hs ht, hearlier, hread, foldl_add_eq]
  exact congrArg (fun samples => Except.ok (DomainCurve.mk samples)) List.foldl_append

end DomainCurve

/-- **Reading turns semicolons into concatenation, and writing turns it back.**
The joined text of two tables is a table if both are, and says the samples of the
first and then those of the second. The first fault of the first text is that of
the joined text. A fault of the second alone is found behind all segments of the first.
The curve of the joined text is that of the first table with the samples of the
second added to it, so under equal keys the first table wins. -/
theorem Table.read_join_and_write_append :
    (∀ s t : List Char, s ≠ [] → t ≠ [] →
      let joined := s ++ ';' :: t
      (SampledCurve.canParse joined = true ↔
        SampledCurve.canParse s = true ∧ SampledCurve.canParse t = true) ∧
      (∀ samples samples', read s = .ok samples → read t = .ok samples' →
        read joined = .ok (samples ++ samples')) ∧
      (∀ e, read s = .error e → read joined = .error e) ∧
      (∀ samples e, read s = .ok samples → read t = .error e →
        read joined = .error (e.later (s.count ';' + 1))) ∧
      ∀ (domain : Domain) (c : DomainCurve domain) (samples : List (Sample Binary64)),
        DomainCurve.ofText s = .ok c → read t = .ok samples →
        let d := samples.foldl (fun d s => d.add s.key s.value) c
        DomainCurve.ofText joined = .ok d ∧
          ∀ key, c.curve.hasKey key = true →
            d.curve.samples.find? (·.key == key) = c.curve.samples.find? (·.key == key)) ∧
      ∀ samples samples' : List (Sample Binary64), samples ≠ [] → samples' ≠ [] →
        write (samples ++ samples') = write samples ++ ';' :: write samples' := by
  refine ⟨?_, fun samples samples' => write_append⟩
  intro s t hs ht joined
  have hjoined := read_join hs ht
  refine ⟨?_, ?_, ?_, ?_, ?_⟩
  · simp only [SampledCurve.canParse, joined, hjoined, isOk_iff, bind_eq_ok_iff,
      mapError_eq_ok_iff]
    constructor
    · intro h
      obtain ⟨_, samples, hsamples, samples', hsamples', -⟩ := h
      exact ⟨⟨samples, hsamples⟩, samples', hsamples'⟩
    · intro h
      obtain ⟨⟨samples, hsamples⟩, samples', hsamples'⟩ := h
      exact ⟨_, samples, hsamples, samples', hsamples', rfl⟩
  · intro samples samples' hsamples hsamples'
    rw [hjoined, hsamples, hsamples']
    rfl
  · intro e he
    rw [hjoined, he]
    rfl
  · intro samples e hsamples he
    rw [hjoined, hsamples, he]
    rfl
  · intro domain c samples hc hsamples d
    refine ⟨DomainCurve.ofText_join hs ht hc hsamples, fun key hkey => ?_⟩
    have hrecords := (DomainCurve.wellFormed_ofText hc).ordered.records
    simp only [d, DomainCurve.foldl_add_eq]
    exact hrecords.find?_addAll hkey samples

/-- Behind `1,2;3,4` another value under the key 1 comes too late, and the blank
key of `6,7; ,8` is found in the fourth segment. A fault in front hides that one. -/
theorem Table.read_join_and_write_append_shared_key :
    let s := ['1', ',', '2', ';', '3', ',', '4']
    let t := ['6', ',', '7', ';', ' ', ',', '8']
    let c := ((DomainCurve.empty : DomainCurve .visualAngle).add (.ofNat 1) (.ofNat 2)).add
      (.ofNat 3) (.ofNat 4)
    read s = .ok [⟨.ofNat 1, .ofNat 2⟩, ⟨.ofNat 3, .ofNat 4⟩] ∧
      read t = .error (.emptyNumber 1) ∧ read (s ++ ';' :: t) = .error (.emptyNumber 3) ∧
      read ['x'] = .error (.fieldCount 0 ['x'] 1) ∧
      read ('x' :: ';' :: t) = .error (.fieldCount 0 ['x'] 1) ∧
      DomainCurve.ofText s = .ok c ∧ c.curve.hasKey (.ofNat 1) = true ∧
      DomainCurve.ofText (s ++ [';', '1', ',', '5']) = .ok (c.add (.ofNat 1) (.ofNat 5)) ∧
      (c.add (.ofNat 1) (.ofNat 5)).curve.samples.find? (·.key == .ofNat 1) =
        c.curve.samples.find? (·.key == .ofNat 1) ∧
      write [⟨.ofNat 1, .ofNat 2⟩, ⟨.ofNat 3, .ofNat 4⟩] =
        write [⟨.ofNat 1, .ofNat 2⟩] ++ ';' :: write [⟨.ofNat 3, .ofNat 4⟩] := by
  intro s t c
  have hs : read s = .ok [⟨.ofNat 1, .ofNat 2⟩, ⟨.ofNat 3, .ofNat 4⟩] := by decide +kernel
  have ht : read t = .error (.emptyNumber 1) := by decide +kernel
  have hx : read ['x'] = .error (.fieldCount 0 ['x'] 1) := by decide +kernel
  have hone : read ['1', ',', '5'] = .ok [⟨.ofNat 1, .ofNat 5⟩] := by decide +kernel
  have hc : DomainCurve.ofText s = .ok c := by
    rw [DomainCurve.ofText_eq, hs]
    exact congrArg Except.ok (DomainCurve.foldl_add_eq DomainCurve.empty
      [⟨.ofNat 1, .ofNat 2⟩, ⟨.ofNat 3, .ofNat 4⟩]).symm
  have hkey : c.curve.hasKey (.ofNat 1) = true := by decide +kernel
  obtain ⟨hread, hwrite⟩ := read_join_and_write_append
  obtain ⟨-, -, -, hsecond, -⟩ := hread s t (by simp [s]) (by simp [t])
  obtain ⟨-, -, hfirst, -⟩ := hread ['x'] t (by simp) (by simp [t])
  obtain ⟨-, -, -, -, hcurve⟩ := hread s ['1', ',', '5'] (by simp [s]) (by simp)
  obtain ⟨hd, hfound⟩ := hcurve .visualAngle c _ hc hone
  exact ⟨hs, ht, hsecond _ _ hs ht, hx, hfirst _ hx, hc, hkey, hd, hfound _ hkey,
    hwrite [⟨.ofNat 1, .ofNat 2⟩] [⟨.ofNat 3, .ofNat 4⟩] (by simp) (by simp)⟩

end Lookout

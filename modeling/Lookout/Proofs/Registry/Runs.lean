/-
Lookout.Proofs.Registry.Runs — after any run of edits a registry is the finite
map of the last writes.

A value is written, an entry or a list of entries is registered in place, or a
registry that a run of its own has filled is taken over, in any order of its
bindings. A list that fails leaves what it has registered before.

What was written last under a name (`lastWrite?`) is read off the edits alone.
Every edit adds its last writes to what a registry holds (`Edit.get?_apply`),
so a run leaves exactly its own (`get?_run`), and all that a registry tells of
itself follows (`run_eq_last_writes`).
-/
import Lookout.Proofs.Registry.Entries
import Lookout.Proofs.Text.ByteOrder

namespace Lookout

namespace Registry

variable {α : Type}

/-! ## Runs -/

/-- An order in which the bindings of a registry are walked. -/
structure Enumeration (α : Type) where
  walk : List (List Char × α) → List (List Char × α)
  perm : ∀ bindings, (walk bindings).Perm bindings

/-- What may happen to a registry. -/
inductive Edit (α : Type) where
  | insert (name : List Char) (value : α)
  | insertJson (json : Json)
  | insertAll (entries : List Json)
  | merge (order : Enumeration α) (other : List (Edit α))

variable (valueOf : Json → Except RegistryError α)

mutual

/-- The registry that an edit leaves, whether or not it fails. -/
def Edit.apply (r : Registry α) : Edit α → Registry α
  | .insert name value => r.insert name value
  | .insertJson json => ((insertJsonInPlace valueOf json).runOn r).2
  | .insertAll entries => ((insertAllInPlace valueOf entries).runOn r).2
  | .merge order other => r.merge ⟨order.walk (applyAll empty other).bindings⟩

/-- The registry after some edits. -/
def applyAll : Registry α → List (Edit α) → Registry α
  | r, [] => r
  | r, edit :: later => applyAll (edit.apply r) later

end

/-- The registry after some edits, empty at first. -/
def run (edits : List (Edit α)) : Registry α := applyAll valueOf empty edits

/-! ## Last writes -/

/-- The bindings of the entries before the first that is bad. -/
def goodBindings : List Json → List (List Char × α)
  | [] => []
  | json :: rest =>
    match bindingOf valueOf json with
    | .ok binding => binding :: goodBindings rest
    | .error _ => []

mutual

/-- What an edit writes last under a name, if it writes anything there; a merge
writes what the merged registry was left with. -/
def Edit.lastWrite? (name : List Char) : Edit α → Option α
  | .insert other value => if name = other then some value else none
  | .insertJson json => (goodBindings valueOf [json]).reverse.lookup name
  | .insertAll entries => (goodBindings valueOf entries).reverse.lookup name
  | .merge _ other => lastWrite? name other

/-- What some edits write last under a name. -/
def lastWrite? (name : List Char) : List (Edit α) → Option α
  | [] => none
  | edit :: later => (lastWrite? name later).or (edit.lastWrite? name)

end

variable {valueOf}

/-! ## Lists of entries -/

theorem insertAll_fst (r : Registry α) (entries : List Json) :
    (insertAll valueOf r entries).1 = r.merge ⟨goodBindings valueOf entries⟩ := by
  induction entries generalizing r with
  | nil => rfl
  | cons json rest ih =>
    simp only [insertAll, insertJson, goodBindings]
    cases bindingOf valueOf json with
    | error e => rfl
    | ok binding => exact ih _

theorem runOn_insertAllInPlace_snd (r : Registry α) (entries : List Json) :
    ((insertAllInPlace valueOf entries).runOn r).2 = r.merge ⟨goodBindings valueOf entries⟩ := by
  rw [runOn_insertAllInPlace, ← insertAll_fst]
  rcases insertAll valueOf r entries with ⟨left, _ | fault⟩ <;> rfl

/-- An entry is a list of one. -/
theorem runOn_insertJsonInPlace_snd (r : Registry α) (json : Json) :
    ((insertJsonInPlace valueOf json).runOn r).2 = r.merge ⟨goodBindings valueOf [json]⟩ := by
  rw [← insertAll_fst, runOn_insertJsonInPlace, insertAll]
  cases insertJson valueOf r json <;> rfl

/-- Either all entries are good, or those before the first bad one are
registered, whose fault is reported. -/
theorem insertAll_cases (r : Registry α) (entries : List Json) :
    (∃ r', entries.foldlM (insertJson valueOf) r = .ok r' ∧
        insertAll valueOf r entries = (r', none)) ∨
      ∃ good bad rest r' fault, entries = good ++ bad :: rest ∧
        good.foldlM (insertJson valueOf) r = .ok r' ∧ insertJson valueOf r' bad = .error fault ∧
        insertAll valueOf r entries = (r', some fault) := by
  induction entries generalizing r with
  | nil => exact .inl ⟨r, rfl, rfl⟩
  | cons json rest ih =>
    cases hjson : insertJson valueOf r json with
    | error fault =>
      exact .inr ⟨[], json, rest, r, fault, rfl, rfl, hjson, by rw [insertAll, hjson]⟩
    | ok r₁ =>
      have hall : insertAll valueOf r (json :: rest) = insertAll valueOf r₁ rest := by
        rw [insertAll, hjson]
      have hfold (l : List Json) : (json :: l).foldlM (insertJson valueOf) r =
          l.foldlM (insertJson valueOf) r₁ := by
        rw [List.foldlM_cons, hjson]
        rfl
      rw [hall]
      obtain ⟨r', hgood, hrest⟩ | ⟨good, bad, later, r', fault, rfl, hgood, hbad, hrest⟩ := ih r₁
      · exact .inl ⟨r', (hfold rest).trans hgood, hrest⟩
      · exact .inr ⟨json :: good, bad, later, r', fault, rfl, (hfold good).trans hgood, hbad, hrest⟩

/-! ## Edits -/

theorem Sorted.apply {r : Registry α} (h : r.Sorted) (edit : Edit α) :
    (edit.apply valueOf r).Sorted := by
  cases edit with
  | insert name value =>
    rw [Edit.apply]
    exact h.insert name value
  | insertJson json =>
    rw [Edit.apply, runOn_insertJsonInPlace_snd]
    exact h.merge _
  | insertAll entries =>
    rw [Edit.apply, runOn_insertAllInPlace_snd]
    exact h.merge _
  | merge order other =>
    rw [Edit.apply]
    exact h.merge _

theorem Sorted.applyAll {r : Registry α} (h : r.Sorted) (edits : List (Edit α)) :
    (applyAll valueOf r edits).Sorted := by
  induction edits generalizing r with
  | nil => rwa [Registry.applyAll]
  | cons edit later ih =>
    rw [Registry.applyAll]
    exact ih (h.apply edit)

theorem sorted_run (edits : List (Edit α)) : (run valueOf edits).Sorted :=
  sorted_empty.applyAll edits

-- By induction on the edits and, through the merges, on the runs of other registries.
-- The order of a merge drops out because a run leaves each name bound once.
mutual

theorem Edit.get?_apply (r : Registry α) (name : List Char) : ∀ edit : Edit α,
    (edit.apply valueOf r).get? name = (edit.lastWrite? valueOf name).or (r.get? name)
  | .insert other value => by
    rw [Edit.apply, Edit.lastWrite?, get?_insert]
    split <;> rfl
  | .insertJson json => by
    rw [Edit.apply, Edit.lastWrite?, runOn_insertJsonInPlace_snd, get?_merge_mk]
  | .insertAll entries => by
    rw [Edit.apply, Edit.lastWrite?, runOn_insertAllInPlace_snd, get?_merge_mk]
  | .merge order other => by
    have hother : (applyAll valueOf empty other).get? name = lastWrite? valueOf name other := by
      rw [get?_applyAll empty name other]
      exact Option.or_none
    have hsorted : (applyAll valueOf empty other).Sorted := sorted_run other
    rw [Edit.apply, Edit.lastWrite?, get?_merge r hsorted (order.perm _), hother]

theorem get?_applyAll (r : Registry α) (name : List Char) : ∀ edits : List (Edit α),
    (applyAll valueOf r edits).get? name = (lastWrite? valueOf name edits).or (r.get? name)
  | [] => by rw [applyAll, lastWrite?, Option.none_or]
  | edit :: later => by
    rw [applyAll, lastWrite?, get?_applyAll (edit.apply valueOf r) name later,
      Edit.get?_apply r name edit, Option.or_assoc]

end

theorem get?_run (edits : List (Edit α)) (name : List Char) :
    (run valueOf edits).get? name = lastWrite? valueOf name edits := by
  rw [run, get?_applyAll]
  exact Option.or_none

/-! ## Queries -/

theorem contains_iff {r : Registry α} {name : List Char} :
    r.contains name = true ↔ ∃ value, r.get name = .ok value := by
  rw [contains, get]
  cases r.get? name <;> simp

theorem mem_names_iff {r : Registry α} {name : List Char} :
    name ∈ r.names ↔ r.contains name = true := by
  rw [contains, get?, names, List.lookup_isSome_iff, List.mem_map]
  exact exists_congr fun binding => and_congr_right fun _ => by rw [beq_iff_eq, eq_comm]

theorem Sorted.bytes_ascending {r : Registry α} (h : r.Sorted) :
    r.names.Pairwise fun name later => Text.bytes name < Text.bytes later :=
  h.names_ascending.imp Text.bytes_lt_bytes

theorem size_eq_length_names (r : Registry α) : r.size = r.names.length :=
  (List.length_map _).symm

theorem isEmpty_iff {r : Registry α} : r.isEmpty = true ↔ r.size = 0 := by
  rw [isEmpty, size, List.isEmpty_iff, List.length_eq_zero_iff]

/-- The program that registers a list does what `insertAll_cases` says of the list. -/
theorem runOn_insertAllInPlace_cases (r : Registry α) (entries : List Json) :
    (∃ r', entries.foldlM (insertJson valueOf) r = .ok r' ∧
        insertAll valueOf r entries = (r', none) ∧
        (insertAllInPlace valueOf entries).runOn r = (.ok (), r')) ∨
      ∃ good bad rest r' fault, entries = good ++ bad :: rest ∧
        good.foldlM (insertJson valueOf) r = .ok r' ∧ insertJson valueOf r' bad = .error fault ∧
        insertAll valueOf r entries = (r', some fault) ∧
        (insertAllInPlace valueOf entries).runOn r = (.error fault, r') := by
  rcases @insertAll_cases _ valueOf r entries with
    ⟨r', hgood, hall⟩ | ⟨good, bad, rest, r', fault, hsplit, hgood, hbad, hall⟩
  · exact .inl ⟨r', hgood, hall, by rw [runOn_insertAllInPlace, hall]⟩
  · exact .inr ⟨good, bad, rest, r', fault, hsplit, hgood, hbad, hall,
      by rw [runOn_insertAllInPlace, hall]⟩

theorem runOn_insertJsonInPlace_of_error {r : Registry α} {json : Json} {fault : RegistryError}
    (h : r.insertJson valueOf json = .error fault) :
    (insertJsonInPlace valueOf json).runOn r = (.error fault, r) := by
  rw [runOn_insertJsonInPlace, h]

/-- **A registry is the finite map of the last writes of its run**, in whatever
orders other registries are taken over. Its names are those that were written,
each once and in ascending order, by code points and by bytes alike. A list of
entries is registered up to the first that fails, and a bad entry changes nothing. -/
theorem run_eq_last_writes (valueOf : Json → Except RegistryError α) (edits : List (Edit α)) :
    let r := run valueOf edits
    (∀ name, r.get name = match lastWrite? valueOf name edits with
        | some value => .ok value
        | none => .error (.unknownName name)) ∧
      (∀ name, r.contains name = true ↔ ∃ value, r.get name = .ok value) ∧
      (∀ name, name ∈ r.names ↔ r.contains name = true) ∧
      r.names.Nodup ∧
      r.names.Pairwise (· < ·) ∧
      r.names.Pairwise (fun name later => Text.bytes name < Text.bytes later) ∧
      r.size = r.names.length ∧
      (r.isEmpty = true ↔ r.size = 0) ∧
      (∀ entries,
        (∃ r', entries.foldlM (insertJson valueOf) r = .ok r' ∧
            insertAll valueOf r entries = (r', none) ∧
            (insertAllInPlace valueOf entries).runOn r = (.ok (), r')) ∨
          ∃ good bad rest r' fault, entries = good ++ bad :: rest ∧
            good.foldlM (insertJson valueOf) r = .ok r' ∧ insertJson valueOf r' bad = .error fault ∧
            insertAll valueOf r entries = (r', some fault) ∧
            (insertAllInPlace valueOf entries).runOn r = (.error fault, r')) ∧
      ∀ json fault, r.insertJson valueOf json = .error fault →
        (insertJsonInPlace valueOf json).runOn r = (.error fault, r) ∧
        Edit.apply valueOf r (.insertJson json) = r := by
  intro r
  have hsorted : r.Sorted := sorted_run edits
  refine ⟨fun name => ?_, fun _ => contains_iff, fun _ => mem_names_iff, hsorted.names_nodup,
    hsorted.names_ascending, hsorted.bytes_ascending, size_eq_length_names r, isEmpty_iff,
    runOn_insertAllInPlace_cases r, fun json fault hfault => ?_⟩
  · have hget : r.get? name = lastWrite? valueOf name edits := get?_run edits name
    show (match r.get? name with
      | some value => Except.ok value
      | none => Except.error (RegistryError.unknownName name)) = _
    rw [hget]
  · have hrun := runOn_insertJsonInPlace_of_error hfault
    exact ⟨hrun, by rw [Edit.apply, hrun]⟩

/-- A name is overwritten by a merge in descending order, and the list of
entries is cut off at `null`. -/
theorem run_eq_last_writes_of_merge_and_entries :
    let entry (name : List Char) : Json := .object [(['n', 'a', 'm', 'e'], .string name)]
    let descending : Enumeration Nat := ⟨List.reverse, List.reverse_perm⟩
    let edits : List (Edit Nat) := [.insert ['b'] 1,
      .merge descending [.insert ['a'] 2, .insert ['b'] 3],
      .insertAll [entry ['c'], .null, entry ['d']]]
    let r := run (fun _ => .ok 7) edits
    r.get ['b'] = .ok 3 ∧ r.get ['d'] = .error (.unknownName ['d']) ∧
      r.names = [['a'], ['b'], ['c']] ∧
      r.insertJson (fun _ => .ok 7) .null = .error .malformedJson ∧
      (insertJsonInPlace (fun _ => .ok 7) .null).runOn r = (.error .malformedJson, r) ∧
      Edit.apply (fun _ => .ok 7) r (.insertJson .null) = r := by
  intro entry descending edits r
  have hnull : r.insertJson (fun _ => .ok 7) .null = .error .malformedJson := rfl
  obtain ⟨hget, -, -, -, -, -, -, -, -, hbad⟩ := run_eq_last_writes (fun _ => .ok 7) edits
  exact ⟨(hget ['b']).trans rfl, (hget ['d']).trans rfl, rfl, hnull, hbad .null _ hnull⟩

end Registry

end Lookout

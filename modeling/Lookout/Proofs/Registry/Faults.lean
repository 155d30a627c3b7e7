/-
Lookout.Proofs.Registry.Faults — what becomes of a JSON value that is to be
registered: the entry that it is, or the fault that it has.

  * `Json.HasMember` — an object has a member, of several of one name the last;
  * `IsEntry`        — an object has a name and a sample table, whatever else it
                       holds;
  * `EntryFault`     — a value is no entry, or the sample table of the entry is
                       at fault;
  * `FirstFault`     — of a list of values the first bad one counts.

These decide alone, whatever the registry holds (`insertJson_eq_ok_iff`,
`insertJson_eq_error_iff`, `insertAll_eq_some_iff`). The registry itself is changed
in place. Both readings of a value come before the one step that binds a name, so
nothing has been done where one of them fails (`runOn_eq_error_iff`).
-/
import Lookout.Proofs.Registry.Entries

namespace Lookout

/-! ## Members -/

namespace Json

/-- An object with a member of this name and value, which no later one replaces. -/
def HasMember (json : Json) (name : List Char) (value : Json) : Prop :=
  ∃ before after, json = .object (before ++ (name, value) :: after) ∧
    ∀ member ∈ after, member.1 ≠ name

theorem member?_eq_some_iff {json value : Json} {name : List Char} :
    json.member? name = some value ↔ json.HasMember name value := by
  cases json with
  | object members =>
    simp only [member?, HasMember, List.lookup_eq_some_iff, object.injEq]
    constructor
    · intro h
      obtain ⟨after, before, hmembers, hafter⟩ := h
      refine ⟨before.reverse, after.reverse, ?_, ?_⟩
      · simpa using congrArg List.reverse hmembers
      · intro member hmember
        have hne := hafter member (List.mem_reverse.mp hmember)
        exact Ne.symm (bne_iff_ne.mp hne)
    · intro h
      obtain ⟨before, after, rfl, hafter⟩ := h
      refine ⟨after.reverse, before.reverse, by simp, ?_⟩
      intro member hmember
      exact bne_iff_ne.mpr (Ne.symm (hafter member (List.mem_reverse.mp hmember)))
  | _ => simp [member?, HasMember]

theorem string?_eq_some_iff {json : Json} {content : List Char} :
    json.string? = some content ↔ json = .string content := by
  cases json <;> simp [string?]

end Json

namespace CurveRegistry

variable {domain : Domain}

/-! ## Entries and their faults -/

/-- An object with a name and a sample table, both of them strings. -/
structure IsEntry (json : Json) (name table : List Char) : Prop where
  name : json.HasMember ['n', 'a', 'm', 'e'] (.string name)
  samples : json.HasMember ['s', 'a', 'm', 'p', 'l', 'e', 's'] (.string table)

/-- What is wrong with a value that is to be registered. The shape comes before
the sample table. -/
inductive EntryFault (json : Json) : RegistryError → Prop where
  | shape : (∀ name table, ¬IsEntry json name table) → EntryFault json .malformedJson
  | table {name table : List Char} {cause : TableError} : IsEntry json name table →
      Table.read table = .error cause → EntryFault json (.malformedTable name cause)

theorem entry?_eq_some_iff {json : Json} {name table : List Char} :
    entry? json = some (name, table) ↔ IsEntry json name table := by
  have hiff : IsEntry json name table ↔
      json.HasMember ['n', 'a', 'm', 'e'] (.string name) ∧
        json.HasMember ['s', 'a', 'm', 'p', 'l', 'e', 's'] (.string table) :=
    ⟨fun h => ⟨h.name, h.samples⟩, fun h => ⟨h.1, h.2⟩⟩
  simp [hiff, entry?, Option.bind_eq_some_iff, Json.string?_eq_some_iff,
    Json.member?_eq_some_iff]

theorem entry?_eq_none_iff {json : Json} :
    entry? json = none ↔ ∀ name table, ¬IsEntry json name table := by
  simp [Option.eq_none_iff_forall_ne_some, entry?_eq_some_iff]

theorem ofText_eq_error_iff {table : List Char} {cause : TableError} :
    (DomainCurve.ofText table : Except TableError (DomainCurve domain)) = .error cause ↔
      Table.read table = .error cause := by
  rw [DomainCurve.ofText_eq]
  cases Table.read table <;> simp [Except.map]

theorem ofEntry_eq_error_iff (domain : Domain) {json : Json} {e : RegistryError} :
    (ofEntry json : Except RegistryError (List Char × DomainCurve domain)) = .error e ↔
      EntryFault json e := by
  constructor
  · intro h
    unfold ofEntry at h
    split at h
    · next hnone =>
      obtain rfl := Except.error.inj h
      exact .shape (entry?_eq_none_iff.mp hnone)
    · next name table hsome =>
      split at h
      · cases h
      · next cause hcause =>
        obtain rfl := Except.error.inj h
        exact .table (entry?_eq_some_iff.mp hsome) (ofText_eq_error_iff.mp hcause)
  · intro h
    cases h with
    | shape hnone => simp [ofEntry, entry?_eq_none_iff.mpr hnone]
    | table hentry hcause =>
      simp [ofEntry, entry?_eq_some_iff.mpr hentry, ofText_eq_error_iff.mpr hcause]

theorem entryFault_malformedJson_iff {json : Json} :
    EntryFault json .malformedJson ↔ ∀ name table, ¬IsEntry json name table := by
  constructor
  · intro h
    cases h with
    | shape hnone => exact hnone
  · exact .shape

theorem entryFault_malformedTable_iff {json : Json} {name : List Char} {cause : TableError} :
    EntryFault json (.malformedTable name cause) ↔
      ∃ table, IsEntry json name table ∧ Table.read table = .error cause := by
  constructor
  · intro h
    cases h with
    | table hentry hcause => exact ⟨_, hentry, hcause⟩
  · intro h
    obtain ⟨table, hentry, hcause⟩ := h
    exact .table hentry hcause

theorem not_isEntry_array (items : List Json) (name table : List Char) :
    ¬IsEntry (.array items) name table := by
  intro h
  obtain ⟨before, after, hobject, -⟩ := h.name
  cases hobject

/-- A value is acceptable unless something is wrong with it. -/
theorem not_acceptable_iff {json : Json} : ¬acceptable json = true ↔ ∃ e, EntryFault json e := by
  simp only [acceptable_iff .visualAngle, ← ofEntry_eq_error_iff .visualAngle]
  cases (ofEntry json : Except RegistryError (List Char × DomainCurve .visualAngle)) <;> simp

/-! ## Registering -/

section Registering

variable {r r' : CurveRegistry domain} {json : Json}

theorem insertJson_eq_ok_iff :
    r.insertJson json = .ok r' ↔ ∃ name table curve, IsEntry json name table ∧
      DomainCurve.ofText table = .ok curve ∧ r' = Registry.insert r name curve := by
  simp only [insertJson, Registry.insertJson, map_eq_ok_iff, bindingOf_curveOf, ofEntry_eq_ok_iff,
    entry?_eq_some_iff]
  constructor
  · intro h
    obtain ⟨⟨name, curve⟩, ⟨table, hentry, hcurve⟩, rfl⟩ := h
    exact ⟨name, table, curve, hentry, hcurve, rfl⟩
  · intro h
    obtain ⟨name, table, curve, hentry, hcurve, rfl⟩ := h
    exact ⟨(name, curve), ⟨table, hentry, hcurve⟩, rfl⟩

theorem insertJson_eq_error_iff {e : RegistryError} :
    r.insertJson json = .error e ↔ EntryFault json e := by
  rw [insertJson, Registry.insertJson, bindingOf_curveOf, ← ofEntry_eq_error_iff domain]
  cases (ofEntry json : Except RegistryError (List Char × DomainCurve domain)) <;> simp [Except.map]

theorem runOn_eq_ok_iff :
    (Registry.insertJsonInPlace curveOf json).runOn r = (.ok (), r') ↔
      r.insertJson json = .ok r' := by
  rw [Registry.runOn_insertJsonInPlace, ← insertJson]
  cases r.insertJson json <;> simp

/-- What fails leaves the registry as it is. -/
theorem runOn_eq_error_iff {e : RegistryError} :
    (Registry.insertJsonInPlace curveOf json).runOn r = (.error e, r') ↔
      EntryFault json e ∧ r' = r := by
  rw [← insertJson_eq_error_iff (r := r), Registry.runOn_insertJsonInPlace, ← insertJson]
  cases r.insertJson json <;> simp [eq_comm]

end Registering

/-! ## Lists of entries -/

/-- The fault of the first bad value of a list; what stands behind it plays no part. -/
def FirstFault (entries : List Json) (e : RegistryError) : Prop :=
  ∃ before json after, entries = before ++ json :: after ∧
    (∀ earlier ∈ before, acceptable earlier = true) ∧ EntryFault json e

section FirstFault

variable {json : Json} {entries later : List Json} {e : RegistryError}

theorem not_firstFault_nil : ¬FirstFault [] e := by
  rintro ⟨before, json, after, hnil, -⟩
  simp at hnil

theorem firstFault_cons_iff :
    FirstFault (json :: entries) e ↔
      EntryFault json e ∨ acceptable json = true ∧ FirstFault entries e := by
  constructor
  · rintro ⟨before, bad, after, hentries, hbefore, hfault⟩
    cases before with
    | nil =>
      obtain ⟨rfl, rfl⟩ := List.cons.inj hentries
      exact .inl hfault
    | cons _ before =>
      obtain ⟨rfl, rfl⟩ := List.cons.inj hentries
      obtain ⟨hjson, hbefore⟩ := List.forall_mem_cons.mp hbefore
      exact .inr ⟨hjson, before, bad, after, rfl, hbefore, hfault⟩
  · intro h
    rcases h with hfault | ⟨hjson, before, bad, after, rfl, hbefore, hfault⟩
    · exact ⟨[], json, entries, rfl, by simp, hfault⟩
    · exact ⟨json :: before, bad, after, rfl, List.forall_mem_cons.mpr ⟨hjson, hbefore⟩, hfault⟩

/-- Of two lists the second one counts if nothing is wrong with the first. -/
theorem firstFault_append_iff :
    FirstFault (entries ++ later) e ↔ FirstFault entries e ∨
      (∀ json ∈ entries, acceptable json = true) ∧ FirstFault later e := by
  induction entries with
  | nil => simp [not_firstFault_nil]
  | cons json rest ih =>
    rw [List.cons_append, firstFault_cons_iff, firstFault_cons_iff, ih, List.forall_mem_cons]
    tauto

theorem insertAll_eq_some_iff {r : CurveRegistry domain} :
    (insertAll r entries).2 = some e ↔ FirstFault entries e := by
  induction entries generalizing r with
  | nil => simp [insertAll, Registry.insertAll, not_firstFault_nil]
  | cons json rest ih =>
    rw [firstFault_cons_iff, ← insertJson_eq_error_iff (r := r), insertAll, Registry.insertAll,
      ← insertJson]
    cases hjson : r.insertJson json with
    | error fault =>
      have hbad : ¬acceptable json = true :=
        not_acceptable_iff.mpr ⟨fault, insertJson_eq_error_iff.mp hjson⟩
      simp [hbad]
    | ok reached =>
      have hgood : acceptable json = true := by
        by_contra hbad
        obtain ⟨fault, hfault⟩ := not_acceptable_iff.mp hbad
        simp [insertJson_eq_error_iff.mpr hfault] at hjson
      have hrest : (Registry.insertAll curveOf reached rest).2 = some e ↔ FirstFault rest e := ih
      simpa [hgood] using hrest

theorem ofEntries_eq_error_iff (domain : Domain) :
    (ofEntries entries : Except RegistryError (CurveRegistry domain)) = .error e ↔
      FirstFault entries e := by
  rw [← insertAll_eq_some_iff (r := (Registry.empty : CurveRegistry domain)), ofEntries_eq]
  split
  · next h => simp [h]
  · next h => simp [h]

theorem exists_ofEntries_iff (domain : Domain) (entries : List Json) :
    (∃ r : CurveRegistry domain, ofEntries entries = .ok r) ↔
      ∀ json ∈ entries, acceptable json = true := by
  rw [← List.all_eq_true, ← exists_binds_iff domain]
  simp only [ofEntries_eq_ok_iff]
  exact ⟨fun ⟨_, bindings, h, _⟩ => ⟨bindings, h⟩, fun ⟨bindings, h⟩ => ⟨_, bindings, h, rfl⟩⟩

end FirstFault

/-! ## Acceptance -/

/-- **A value is registered exactly if it is an entry with a good sample table.**
Then its name is bound to the curve of the table, and no other name is touched. A
table with a fault is blamed by the name of the entry and by its own fault; any
other value, and so every array, is malformed. A value that is turned down leaves
the registry as it is. -/
theorem insertJson_iff_isEntry (r : CurveRegistry domain) (json : Json) :
    let outcome := ((Registry.insertJsonInPlace curveOf json).runOn r).1
    let left := ((Registry.insertJsonInPlace curveOf json).runOn r).2
    r.insertJson json = outcome.map (fun _ => left) ∧
      (outcome = .ok () ↔ ∃ name table, IsEntry json name table ∧
        SampledCurve.canParse table = true) ∧
      (∀ name table, IsEntry json name table → ∀ curve, DomainCurve.ofText table = .ok curve →
        ∀ other, left.get? other = if other = name then some curve else r.get? other) ∧
      (∀ name cause, outcome = .error (.malformedTable name cause) ↔
        ∃ table, IsEntry json name table ∧ Table.read table = .error cause) ∧
      (outcome = .error .malformedJson ↔ ∀ name table, ¬IsEntry json name table) ∧
      (∀ items, json = .array items → outcome = .error .malformedJson) ∧
      ∀ e, outcome = .error e →
        left = r ∧ (e = .malformedJson ∨ ∃ name cause, e = .malformedTable name cause) := by
  intro outcome left
  have hok : outcome = .ok () ↔ ∃ r', r.insertJson json = .ok r' := by
    simp only [← runOn_eq_ok_iff]
    exact ⟨fun h => ⟨left, Prod.ext h rfl⟩, fun ⟨_, h⟩ => congrArg Prod.fst h⟩
  have herror (e : RegistryError) : outcome = .error e ↔ EntryFault json e :=
    ⟨fun h => (runOn_eq_error_iff.mp (Prod.ext h rfl)).1,
      fun h => congrArg Prod.fst (runOn_eq_error_iff.mpr ⟨h, rfl⟩)⟩
  refine ⟨?_, ?_, ?_, ?_, ?_, ?_, ?_⟩
  · simp only [outcome, left]
    rw [Registry.runOn_insertJsonInPlace, ← insertJson]
    cases r.insertJson json <;> rfl
  · simp only [hok, insertJson_eq_ok_iff, ← DomainCurve.exists_ofText_iff domain]
    constructor
    · intro h
      obtain ⟨_, name, table, curve, hentry, hcurve, -⟩ := h
      exact ⟨name, table, hentry, curve, hcurve⟩
    · intro h
      obtain ⟨name, table, hentry, curve, hcurve⟩ := h
      exact ⟨_, name, table, curve, hentry, hcurve, rfl⟩
  · intro name table hentry curve hcurve other
    have hinsert : r.insertJson json = .ok (Registry.insert r name curve) :=
      insertJson_eq_ok_iff.mpr ⟨name, table, curve, hentry, hcurve, rfl⟩
    have hleft : left = Registry.insert r name curve :=
      congrArg Prod.snd (runOn_eq_ok_iff.mpr hinsert)
    rw [hleft, Registry.get?_insert]
  · intro name cause
    rw [herror, entryFault_malformedTable_iff]
  · rw [herror, entryFault_malformedJson_iff]
  · rintro items rfl
    exact (herror _).mpr (.shape (not_isEntry_array items))
  · intro e he
    have hrun : (Registry.insertJsonInPlace curveOf json).runOn r = (.error e, left) :=
      Prod.ext he rfl
    obtain ⟨hfault, hleft⟩ := runOn_eq_error_iff.mp hrun
    refine ⟨hleft, ?_⟩
    cases hfault with
    | shape => exact .inl rfl
    | table => exact .inr ⟨_, _, rfl⟩

/-- Of two names the later one counts, and a member of another name plays no part. -/
theorem insertJson_iff_isEntry_two_names :
    let entry (table : List Char) : Json := .object [(['n', 'a', 'm', 'e'], .string ['z']),
      (['x'], .null), (['s', 'a', 'm', 'p', 'l', 'e', 's'], .string table),
      (['n', 'a', 'm', 'e'], .string ['a'])]
    let good := ['1', ',', '2']
    let bad := ['1']
    let left (json : Json) : CurveRegistry .errorProbability :=
      ((Registry.insertJsonInPlace curveOf json).runOn Registry.empty).2
    IsEntry (entry good) ['a'] good ∧ (∃ curve, DomainCurve.ofText good = .ok curve ∧
        (left (entry good)).get? ['a'] = some curve ∧ (left (entry good)).get? ['z'] = none) ∧
      IsEntry (entry bad) ['a'] bad ∧ Table.read bad = .error (.fieldCount 0 bad 1) ∧
      ((Registry.insertJsonInPlace curveOf (entry bad)).runOn
          (Registry.empty : CurveRegistry .errorProbability)).1 =
        .error (.malformedTable ['a'] (.fieldCount 0 bad 1)) ∧
      left (entry bad) = Registry.empty ∧ left (.array [.string ['a']]) = Registry.empty := by
  intro entry good bad left
  have hentry (table : List Char) : IsEntry (entry table) ['a'] table :=
    entry?_eq_some_iff.mp rfl
  obtain ⟨curve, hcurve⟩ :=
    (DomainCurve.exists_ofText_iff .errorProbability good).mpr (by decide +kernel)
  have hbad : Table.read bad = .error (.fieldCount 0 bad 1) := by decide +kernel
  obtain ⟨-, -, hbound, -⟩ := insertJson_iff_isEntry Registry.empty (entry good)
  obtain ⟨-, -, -, hfault, -, -, hkept⟩ :=
    insertJson_iff_isEntry (Registry.empty : CurveRegistry .errorProbability) (entry bad)
  obtain ⟨-, -, -, -, -, harray, hkept'⟩ := insertJson_iff_isEntry
    (Registry.empty : CurveRegistry .errorProbability) (.array [.string ['a']])
  have hget := hbound ['a'] good (hentry good) curve hcurve
  have hblame := (hfault ['a'] (.fieldCount 0 bad 1)).mpr ⟨bad, hentry bad, hbad⟩
  exact ⟨hentry good, ⟨curve, hcurve, hget ['a'], hget ['z']⟩, hentry bad, hbad, hblame,
    (hkept _ hblame).1, (hkept' _ (harray _ rfl)).1⟩

end CurveRegistry

end Lookout

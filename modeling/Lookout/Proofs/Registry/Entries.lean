/-
Lookout.Proofs.Registry.Entries — what the entries of a section bind.

The registry is changed in place, and an entry is registered at once or not at
all (`runOn_insertJsonInPlace`); of a list of entries those before the first bad
one stay (`runOn_insertAllInPlace`).

Entries are good or bad one by one (`acceptable`): a name and a table are read
from the members of an object and from nothing else (`bindingOf_curveOf`). A
list of good entries has the effect of writing their curves in order
(`insertAll_eq_none_iff`). What such writes leave in a registry is said in
terms of the texts of the entries: under each name the curve of the last table
(`Holds.get?`).
-/
import Lookout.Registry.Curves
import Lookout.Proofs.Curve.Domain
import Lookout.Proofs.Registry.LastWrite

namespace Lookout

/-! ## Lists of entries -/

namespace Registry

variable {α : Type} {valueOf : Json → Except RegistryError α}

/-- **An entry is registered at once or not at all.** -/
theorem runOn_insertJsonInPlace (json : Json) (r : Registry α) :
    (insertJsonInPlace valueOf json).runOn r =
      match r.insertJson valueOf json with
      | .ok left => (.ok (), left)
      | .error e => (.error e, r) := by
  rw [insertJsonInPlace, insertJson, bindingOf, InPlace.runOn_ofExcept_bind]
  cases nameOf json with
  | error e => rfl
  | ok name =>
    dsimp only
    rw [InPlace.runOn_ofExcept_bind]
    cases valueOf json with
    | error e => rfl
    | ok value => rfl

/-- A list of entries is registered up to the first bad one. -/
theorem runOn_insertAllInPlace (entries : List Json) (r : Registry α) :
    (insertAllInPlace valueOf entries).runOn r =
      match r.insertAll valueOf entries with
      | (left, none) => (.ok (), left)
      | (left, some e) => (.error e, left) := by
  induction entries generalizing r with
  | nil => rfl
  | cons json rest ih =>
    have hseq :=
      InPlace.runOn_seq (insertJsonInPlace valueOf json) (insertAllInPlace valueOf rest) r
    rw [runOn_insertJsonInPlace] at hseq
    refine hseq.trans ?_
    rw [insertAll]
    cases insertJson valueOf r json with
    | error e => rfl
    | ok left => exact ih left

theorem insertAll_eq_none_iff {r r' : Registry α} {entries : List Json} :
    insertAll valueOf r entries = (r', none) ↔
      ∃ bindings, List.Forall₂ (fun json binding => bindingOf valueOf json = .ok binding)
        entries bindings ∧ r' = r.merge ⟨bindings⟩ := by
  induction entries generalizing r with
  | nil => simp [insertAll, merge, eq_comm]
  | cons json rest ih =>
    simp only [insertAll, insertJson, List.forall₂_cons_left_iff]
    cases hentry : bindingOf valueOf json with
    | error e => simp [Except.map]
    | ok binding =>
      simp only [Except.map, ih, Except.ok.injEq]
      constructor
      · intro h
        obtain ⟨bindings, hrest, rfl⟩ := h
        exact ⟨binding :: bindings, ⟨binding, bindings, rfl, hrest, rfl⟩, rfl⟩
      · intro h
        obtain ⟨_, ⟨_, bindings, rfl, hrest, rfl⟩, rfl⟩ := h
        exact ⟨bindings, hrest, rfl⟩

end Registry

namespace CurveRegistry

variable {domain : Domain}

/-! ## Good entries -/

/-- The name and the sample table of an entry. -/
def entry? (json : Json) : Option (List Char × List Char) := do
  let name ← (← json.member? ['n', 'a', 'm', 'e']).string?
  let samples ← (← json.member? ['s', 'a', 'm', 'p', 'l', 'e', 's']).string?
  return (name, samples)

/-- The name and the curve of an entry. -/
def ofEntry (json : Json) : Except RegistryError (List Char × DomainCurve domain) :=
  match entry? json with
  | none => .error .malformedJson
  | some (name, samples) =>
    match DomainCurve.ofText samples with
    | .ok curve => .ok (name, curve)
    | .error cause => .error (.malformedTable name cause)

/-- No array has the length of a name alone and that of a name and a table. -/
theorem bindingOf_curveOf_array (items : List Json) :
    Registry.bindingOf (curveOf : Json → Except RegistryError (DomainCurve domain))
      (.array items) = .error .malformedJson := by
  by_cases hone : items.length = 1
  · have hvalue : curveOf (.array items) =
        (.error .malformedJson : Except RegistryError (DomainCurve domain)) := by
      simp [curveOf, Json.strings?, hone]
    rw [Registry.bindingOf, hvalue, Registry.nameOf]
    split <;> rfl
  · have hname : Registry.nameOf (.array items) = .error .malformedJson := by
      simp [Registry.nameOf, Json.strings?, hone]
    rw [Registry.bindingOf, hname]
    rfl

theorem bindingOf_curveOf (json : Json) :
    Registry.bindingOf (curveOf : Json → Except RegistryError (DomainCurve domain)) json =
      ofEntry json := by
  cases json with
  | array items => exact bindingOf_curveOf_array items
  | object members =>
    simp only [Registry.bindingOf, Registry.nameOf, curveOf, Json.strings?, ofEntry, entry?,
      List.mapM_cons, List.mapM_nil]
    rcases Json.member? ['n', 'a', 'm', 'e'] (.object members) with _ | name
    · rfl
    rcases hname : name.string? with _ | name
    · simp [hname, bind, Except.bind]
    rcases Json.member? ['s', 'a', 'm', 'p', 'l', 'e', 's'] (.object members) with _ | samples
    · simp [hname, bind, Except.bind]
    rcases hsamples : samples.string? with _ | samples
    · simp [hname, hsamples, bind, Except.bind]
    simp only [hname, hsamples, Option.bind_some, Option.pure_def, bind, Except.bind]
    cases (DomainCurve.ofText samples : Except TableError (DomainCurve domain)) <;> rfl
  | _ => rfl

/-- An entry is good if it has a name and a sample table. -/
def acceptable (json : Json) : Bool :=
  match entry? json with
  | some (_, table) => SampledCurve.canParse table
  | none => false

theorem ofEntry_eq_ok_iff {json : Json} {binding : List Char × DomainCurve domain} :
    ofEntry json = .ok binding ↔
      ∃ table, entry? json = some (binding.1, table) ∧
        DomainCurve.ofText table = .ok binding.2 := by
  unfold ofEntry
  constructor
  · intro h
    split at h
    · simp at h
    · next name table hentry =>
      split at h
      · next curve htable =>
        obtain rfl := Except.ok.inj h
        exact ⟨table, hentry, htable⟩
      · simp at h
  · intro h
    obtain ⟨table, hentry, htable⟩ := h
    simp [hentry, htable]

theorem acceptable_iff (domain : Domain) (json : Json) :
    acceptable json = true ↔
      ∃ binding : List Char × DomainCurve domain, ofEntry json = .ok binding := by
  simp only [ofEntry_eq_ok_iff, acceptable, Prod.exists]
  cases hentry : entry? json with
  | none => simp
  | some entry =>
    obtain ⟨name, table⟩ := entry
    rw [← DomainCurve.exists_ofText_iff domain]
    simp

/-- Bindings with the curves of some entries. -/
def Binds (entries : List Json) (bindings : List (List Char × DomainCurve domain)) : Prop :=
  List.Forall₂ (fun json binding => ofEntry json = .ok binding) entries bindings

theorem exists_binds_iff (domain : Domain) (entries : List Json) :
    (∃ bindings : List (List Char × DomainCurve domain), Binds entries bindings) ↔
      entries.all acceptable = true := by
  simp only [Binds, exists_forall₂_iff, List.all_eq_true, acceptable_iff domain]

theorem insertAll_eq_none_iff {r r' : CurveRegistry domain} {entries : List Json} :
    insertAll r entries = (r', none) ↔
      ∃ bindings, Binds entries bindings ∧ r' = r.merge ⟨bindings⟩ := by
  simp only [insertAll, Registry.insertAll_eq_none_iff, bindingOf_curveOf, Binds]

theorem ofEntries_eq (entries : List Json) :
    (ofEntries entries : Except RegistryError (CurveRegistry domain)) =
      match insertAll Registry.empty entries with
      | (r, none) => .ok r
      | (_, some e) => .error e := by
  rw [ofEntries, InPlace.outcome, Registry.runOn_insertAllInPlace, ← insertAll]
  rcases insertAll (Registry.empty : CurveRegistry domain) entries with ⟨r, _ | e⟩ <;> rfl

theorem ofEntries_eq_ok_iff {r : CurveRegistry domain} {entries : List Json} :
    ofEntries entries = .ok r ↔
      ∃ bindings, Binds entries bindings ∧ r = Registry.empty.merge ⟨bindings⟩ := by
  rw [← insertAll_eq_none_iff, ofEntries_eq]
  split
  · next h => simp [h]
  · next h => simp [h]

/-! ## Contents -/

/-- The names and the tables of the entries that have both. -/
def written (entries : List Json) : List (List Char × List Char) := entries.filterMap entry?

/-- A binding of the name of a write to the curve of its table. -/
def Stores (write : List Char × List Char) (binding : List Char × DomainCurve domain) : Prop :=
  binding.1 = write.1 ∧ DomainCurve.ofText write.2 = .ok binding.2

theorem Binds.stores {entries : List Json} {bindings : List (List Char × DomainCurve domain)}
    (h : Binds entries bindings) : List.Forall₂ Stores (written entries) bindings := by
  induction h with
  | nil => exact .nil
  | cons hentry _ ih =>
    obtain ⟨table, hwritten, htable⟩ := ofEntry_eq_ok_iff.mp hentry
    rw [written, List.filterMap_cons_some hwritten]
    exact .cons ⟨rfl, htable⟩ ih

theorem lookup_of_stores {writes : List (List Char × List Char)}
    {bindings : List (List Char × DomainCurve domain)} (h : List.Forall₂ Stores writes bindings)
    (name : List Char) :
    (bindings.lookup name).map Except.ok = (writes.lookup name).map DomainCurve.ofText := by
  induction h with
  | nil => rfl
  | @cons write binding _ _ hstores _ ih =>
    obtain ⟨hname, htable⟩ := hstores
    rw [← Prod.mk.eta (p := write), ← Prod.mk.eta (p := binding), hname,
      Registry.lookup_cons_eq_if, Registry.lookup_cons_eq_if]
    split
    · rw [Option.map_some, Option.map_some, htable]
    · exact ih

/-- The registry holds the curves of some tables, written one after the other. -/
def Holds (r : CurveRegistry domain) (writes : List (List Char × List Char)) : Prop :=
  ∃ bindings, List.Forall₂ Stores writes bindings ∧ r = Registry.empty.merge ⟨bindings⟩

namespace Holds

variable {r : CurveRegistry domain} {writes : List (List Char × List Char)}

theorem empty : Holds (Registry.empty : CurveRegistry domain) [] := ⟨[], .nil, rfl⟩

theorem sorted (h : r.Holds writes) : Registry.Sorted r := by
  obtain ⟨bindings, -, rfl⟩ := h
  exact Registry.sorted_empty.merge _

theorem merge (h : r.Holds writes) {entries : List Json}
    {bindings : List (List Char × DomainCurve domain)} (hbinds : Binds entries bindings) :
    Holds (Registry.merge r ⟨bindings⟩) (writes ++ written entries) := by
  obtain ⟨earlier, hstores, rfl⟩ := h
  exact ⟨earlier ++ bindings, List.rel_append hstores hbinds.stores,
    (Registry.merge_mk_append _ _ _).symm⟩

/-- Under each name lies the curve of the last table that was written for it. -/
theorem get? (h : r.Holds writes) (name : List Char) :
    (Registry.get? r name).map Except.ok =
      (writes.reverse.lookup name).map DomainCurve.ofText := by
  obtain ⟨bindings, hstores, rfl⟩ := h
  rw [Registry.get?_merge_mk, ← lookup_of_stores (List.rel_reverse hstores) name]
  simp [Registry.get?, Registry.empty]

end Holds

end CurveRegistry

end Lookout

/-
Lookout.Proofs.Registry.LastWrite — a registry is a finite map in which the
last write wins.

`get?` determines a registry as long as its bindings are sorted (`Sorted.ext`),
and they always are. So two ways of filling a registry are the same as soon as
every name is bound to the same value, as it is when writes are collected in
another registry first and then merged (`merge_merge`).
-/
import Lookout.Registry.Basic
import Mathlib.Data.List.Sort

namespace Lookout

namespace Registry

variable {α : Type}

/-! ## Lookup -/

theorem lookup_cons_eq_if (name other : List Char) (value : α) (rest : List (List Char × α)) :
    ((other, value) :: rest).lookup name =
      if name = other then some value else rest.lookup name := by
  by_cases h : name = other
  · subst h
    simp
  · have hbeq : (name == other) = false := by simpa using h
    simp [List.lookup_cons, hbeq, h]

theorem lookup_put (name other : List Char) (value : α) (bindings : List (List Char × α)) :
    (put name value bindings).lookup other =
      if other = name then some value else bindings.lookup other := by
  induction bindings with
  | nil => simp [put, lookup_cons_eq_if]
  | cons binding rest ih =>
    obtain ⟨head, held⟩ := binding
    rw [put]
    split
    · rw [lookup_cons_eq_if]
    · split
      · next hname =>
        subst hname
        rw [lookup_cons_eq_if, lookup_cons_eq_if]
        split <;> rfl
      · next hname =>
        rw [lookup_cons_eq_if, lookup_cons_eq_if, ih]
        by_cases hother : other = head
        · subst hother
          rw [if_pos rfl, if_neg (Ne.symm hname), if_pos rfl]
        · rw [if_neg hother, if_neg hother]

theorem get?_insert (r : Registry α) (name other : List Char) (value : α) :
    (r.insert name value).get? other = if other = name then some value else r.get? other :=
  lookup_put name other value r.bindings

/-- Merging is writing one binding after the other, so the last one of a name counts. -/
theorem get?_merge_mk (r : Registry α) (writes : List (List Char × α)) (name : List Char) :
    (r.merge ⟨writes⟩).get? name = (writes.reverse.lookup name).or (r.get? name) := by
  simp only [merge]
  induction writes generalizing r with
  | nil => rfl
  | cons write later ih =>
    obtain ⟨other, value⟩ := write
    rw [List.foldl_cons, ih, get?_insert, List.reverse_cons, List.lookup_append, Option.or_assoc,
      lookup_cons_eq_if]
    congr 1
    split <;> simp

theorem merge_mk_append (r : Registry α) (writes later : List (List Char × α)) :
    r.merge ⟨writes ++ later⟩ = (r.merge ⟨writes⟩).merge ⟨later⟩ := by
  simp only [merge, List.foldl_append]

/-! ## Sorted bindings -/

/-- The bindings stand in strictly ascending order of their names. -/
def Sorted (r : Registry α) : Prop := r.bindings.Pairwise fun a b => a.1 < b.1

theorem sorted_empty : (empty : Registry α).Sorted := .nil

theorem mem_put {name : List Char} {value : α} {bindings : List (List Char × α)}
    {binding : List Char × α} (h : binding ∈ put name value bindings) :
    binding = (name, value) ∨ binding ∈ bindings := by
  induction bindings with
  | nil => simpa [put] using h
  | cons head rest ih =>
    rw [put] at h
    split at h
    · exact List.mem_cons.mp h
    · split at h
      · exact (List.mem_cons.mp h).imp_right (List.mem_cons_of_mem _)
      · rcases List.mem_cons.mp h with rfl | h
        · exact .inr (by simp)
        · exact (ih h).imp_right (List.mem_cons_of_mem _)

theorem Sorted.insert {r : Registry α} (h : r.Sorted) (name : List Char) (value : α) :
    (r.insert name value).Sorted := by
  obtain ⟨bindings⟩ := r
  simp only [Sorted, Registry.insert] at h ⊢
  induction bindings with
  | nil => simp [put]
  | cons head rest ih =>
    obtain ⟨other, held⟩ := head
    have hrest := List.pairwise_cons.mp h
    rw [put]
    split
    · next hlt =>
      refine List.pairwise_cons.mpr ⟨fun binding hmem => ?_, h⟩
      rcases List.mem_cons.mp hmem with rfl | hmem
      · exact hlt
      · exact List.lt_trans hlt (hrest.1 binding hmem)
    · next hle =>
      split
      · next hname =>
        subst hname
        exact List.pairwise_cons.mpr hrest
      · next hname =>
        have hlt : other < name :=
          (List.le_iff_lt_or_eq.mp hle).resolve_right fun h => hname h.symm
        refine List.pairwise_cons.mpr ⟨fun binding hmem => ?_, ih hrest.2⟩
        rcases mem_put hmem with rfl | hmem
        · exact hlt
        · exact hrest.1 binding hmem

theorem Sorted.merge {r : Registry α} (h : r.Sorted) (other : Registry α) :
    (r.merge other).Sorted := by
  obtain ⟨writes⟩ := other
  simp only [Registry.merge]
  induction writes generalizing r with
  | nil => exact h
  | cons write later ih => exact ih (h.insert _ _)

/-! ## Names that are bound once -/

/-- The binding that is found is the one that is there. -/
theorem lookup_eq_some_iff {bindings : List (List Char × α)}
    (h : (bindings.map Prod.fst).Nodup) {name : List Char} {value : α} :
    bindings.lookup name = some value ↔ (name, value) ∈ bindings := by
  induction bindings with
  | nil => simp
  | cons head rest ih =>
    obtain ⟨other, held⟩ := head
    obtain ⟨hfresh, hrest⟩ := List.nodup_cons.mp h
    rw [lookup_cons_eq_if]
    by_cases hname : name = other
    · subst hname
      have habsent : (name, value) ∉ rest := fun hmem => hfresh (List.mem_map_of_mem hmem :)
      simp [habsent, eq_comm]
    · simp [hname, ih hrest]

theorem lookup_eq_of_perm {bindings other : List (List Char × α)} (hperm : bindings.Perm other)
    (h : (other.map Prod.fst).Nodup) (name : List Char) :
    bindings.lookup name = other.lookup name := by
  have h' : (bindings.map Prod.fst).Nodup := (hperm.map Prod.fst).nodup_iff.mpr h
  refine Option.ext fun value => ?_
  rw [lookup_eq_some_iff h', lookup_eq_some_iff h, hperm.mem_iff]

theorem Sorted.names_ascending {r : Registry α} (h : r.Sorted) : r.names.Pairwise (· < ·) :=
  List.pairwise_map.mpr h

theorem Sorted.names_nodup {r : Registry α} (h : r.Sorted) : r.names.Nodup := by
  refine h.names_ascending.imp fun {name later} hlt => ?_
  rintro rfl
  exact List.lt_irrefl name hlt

theorem Sorted.get?_eq_some_iff {r : Registry α} (h : r.Sorted) {name : List Char} {value : α} :
    r.get? name = some value ↔ (name, value) ∈ r.bindings :=
  lookup_eq_some_iff h.names_nodup

theorem Sorted.ext {r s : Registry α} (hr : r.Sorted) (hs : s.Sorted)
    (h : ∀ name, r.get? name = s.get? name) : r = s := by
  have : Std.Irrefl fun a b : List Char × α => a.1 < b.1 := ⟨fun a => List.lt_irrefl a.1⟩
  have : Std.Antisymm fun a b : List Char × α => a.1 < b.1 :=
    ⟨fun _ _ hab hba => absurd hba (List.lt_asymm hab)⟩
  have hbindings : r.bindings = s.bindings := by
    refine List.Pairwise.eq_of_mem_iff hr hs ?_
    rintro ⟨name, value⟩
    rw [← hr.get?_eq_some_iff, ← hs.get?_eq_some_iff, h]
  exact congrArg Registry.mk hbindings

/-! ## Merging -/

/-- The bindings of another registry may be taken over in any order. -/
theorem get?_merge (r : Registry α) {other : Registry α} (h : other.Sorted)
    {bindings : List (List Char × α)} (hperm : bindings.Perm other.bindings) (name : List Char) :
    (r.merge ⟨bindings⟩).get? name = (other.get? name).or (r.get? name) := by
  have hreverse : bindings.reverse.Perm other.bindings := (List.reverse_perm _).trans hperm
  rw [get?_merge_mk, lookup_eq_of_perm hreverse h.names_nodup]
  rfl

/-- **Writes that are collected first and then merged** have the effect of the writes themselves. -/
theorem merge_merge {r : Registry α} (h : r.Sorted) (writes : List (List Char × α)) :
    r.merge (empty.merge ⟨writes⟩) = r.merge ⟨writes⟩ := by
  refine (h.merge _).ext (h.merge _) fun name => ?_
  rw [get?_merge _ (sorted_empty.merge _) (.refl _), get?_merge_mk, get?_merge_mk, Option.or_assoc]
  rfl

end Registry

end Lookout

/-
Lookout.Proofs.Sorting — stable sorting by an integer key.

A list in ascending order of its keys is determined by the elements of each
key in their order (`eq_of_filter_eq`). Sorting keeps these, so it is the only
list with both properties: `eq_sortBy` is the way in which a list that has
been put in order by other means is found to be sorted stably.
-/

namespace Lookout

variable {β : Type} {f : β → Int}

/-- The keys stand in ascending order. -/
def Ascending (f : β → Int) (l : List β) : Prop := l.Pairwise fun a b => f a ≤ f b

theorem Ascending.head_le {a : β} {l : List β} (h : Ascending f (a :: l)) :
    ∀ b ∈ a :: l, f a ≤ f b := by
  intro b hb
  rcases List.mem_cons.mp hb with rfl | hb
  · exact Int.le_refl _
  · exact (List.pairwise_cons.mp h).1 b hb

/-- The stable sort by a key. -/
def sortBy (f : β → Int) (l : List β) : List β := l.mergeSort fun a b => decide (f a ≤ f b)

theorem keyLE_trans (a b c : β) (hab : decide (f a ≤ f b) = true)
    (hbc : decide (f b ≤ f c) = true) : decide (f a ≤ f c) = true := by
  simp only [decide_eq_true_eq] at *
  omega

theorem keyLE_total (a b : β) : (decide (f a ≤ f b) || decide (f b ≤ f a)) = true := by
  simp only [Bool.or_eq_true, decide_eq_true_eq]
  omega

theorem sortBy_perm (l : List β) : (sortBy f l).Perm l := List.mergeSort_perm _ _

theorem ascending_sortBy (l : List β) : Ascending f (sortBy f l) := by
  have h : (sortBy f l).Pairwise fun a b => decide (f a ≤ f b) = true :=
    List.pairwise_mergeSort keyLE_trans keyLE_total l
  exact h.imp of_decide_eq_true

/-- Elements that are in order already keep it. -/
theorem filter_sortBy {p : β → Bool} {l : List β}
    (h : Ascending f (l.filter p)) : (sortBy f l).filter p = l.filter p := by
  have hsub : (l.filter p).Sublist (sortBy f l) :=
    List.sublist_mergeSort keyLE_trans keyLE_total (h.imp fun hab => decide_eq_true hab)
      List.filter_sublist
  have hfilter : (l.filter p).Sublist ((sortBy f l).filter p) := by
    simpa only [List.filter_filter, Bool.and_self] using hsub.filter p
  exact (hfilter.eq_of_length ((sortBy_perm l).filter p).length_eq.symm).symm

theorem filter_key_sortBy (k : Int) (l : List β) :
    (sortBy f l).filter (fun a => f a = k) = l.filter fun a => f a = k :=
  filter_sortBy (List.pairwise_of_forall_mem_list fun a ha b hb => by
    simp only [List.mem_filter, decide_eq_true_eq] at ha hb
    omega)

/-- Ascending lists with the same elements of each key, in the same order, are the same. -/
theorem eq_of_filter_eq {xs ys : List β} (hxs : Ascending f xs)
    (hys : Ascending f ys)
    (h : ∀ k, xs.filter (fun a => f a = k) = ys.filter fun a => f a = k) : xs = ys := by
  induction xs generalizing ys with
  | nil =>
    rw [eq_comm, List.eq_nil_iff_forall_not_mem]
    intro y hy
    have : y ∈ ys.filter fun a => f a = f y := List.mem_filter.mpr ⟨hy, by simp⟩
    rw [← h] at this
    simp at this
  | cons x xs ih =>
    have hx : x ∈ ys := by
      have : x ∈ (x :: xs).filter fun a => f a = f x := by simp
      rw [h] at this
      exact (List.mem_filter.mp this).1
    obtain _ | ⟨y, ys⟩ := ys
    · simp at hx
    have hy : y ∈ x :: xs := by
      have : y ∈ (y :: ys).filter fun a => f a = f y := by simp
      rw [← h] at this
      exact (List.mem_filter.mp this).1
    -- both heads are least, so they have one key and are the first element of it
    have hkey : f x = f y := Int.le_antisymm (hxs.head_le y hy) (hys.head_le x hx)
    obtain rfl : x = y := by
      have := h (f x)
      simp [hkey] at this
      exact this.1
    rw [ih hxs.of_cons hys.of_cons fun k => ?_]
    have := h k
    by_cases hk : f x = k
    · simpa [List.filter_cons, hk] using this
    · simpa [List.filter_cons, hk] using this

/-- **The stable sort is the ascending list with the elements of each key in their order.** -/
theorem eq_sortBy {xs l : List β} (hxs : Ascending f xs)
    (h : ∀ k, xs.filter (fun a => f a = k) = l.filter fun a => f a = k) : xs = sortBy f l :=
  eq_of_filter_eq hxs (ascending_sortBy l) fun k => by rw [h, filter_key_sortBy]

theorem sortBy_of_ascending {l : List β} (h : Ascending f l) : sortBy f l = l :=
  (eq_sortBy h fun _ => rfl).symm

theorem sortBy_append (l l' : List β) : sortBy f (sortBy f l ++ l') = sortBy f (l ++ l') :=
  eq_sortBy (ascending_sortBy _) fun k => by
    rw [filter_key_sortBy, List.filter_append, filter_key_sortBy, List.filter_append]

/-- If a test separates the keys, what passes it comes first. -/
theorem sortBy_eq_filter_append {p : β → Bool} {l : List β}
    (hpass : Ascending f (l.filter p))
    (hfail : Ascending f (l.filter fun a => !p a))
    (hlt : ∀ a ∈ l, ∀ b ∈ l, p a = true → p b = false → f a < f b) :
    sortBy f l = l.filter p ++ l.filter fun a => !p a := by
  refine (eq_sortBy (List.pairwise_append.mpr ⟨hpass, hfail, ?_⟩) fun k => ?_).symm
  · intro a ha b hb
    simp only [List.mem_filter, Bool.not_eq_true'] at ha hb
    exact Int.le_of_lt (hlt a ha.1 b hb.1 ha.2 hb.2)
  -- the elements of one key pass the test together, or fail it together
  have hclass : (∀ a ∈ l.filter (fun a => f a = k), p a = true) ∨
      ∀ a ∈ l.filter (fun a => f a = k), p a = false := by
    by_cases hk : ∃ a ∈ l, p a = true ∧ f a = k
    · obtain ⟨a, ha, hpa, rfl⟩ := hk
      refine .inl fun b hb => Bool.of_not_eq_false fun hpb => ?_
      simp only [List.mem_filter, decide_eq_true_eq] at hb
      have := hlt a ha b hb.1 hpa hpb
      omega
    · refine .inr fun b hb => Bool.of_not_eq_true fun hpb => hk ?_
      simp only [List.mem_filter, decide_eq_true_eq] at hb
      exact ⟨b, hb.1, hpb, hb.2⟩
  have hswap (q : β → Bool) : (l.filter q).filter (fun a => f a = k) =
      (l.filter fun a => f a = k).filter q := by
    rw [List.filter_filter, List.filter_filter]
    exact List.filter_congr fun a _ => Bool.and_comm _ _
  rw [List.filter_append, hswap, hswap]
  rcases hclass with hall | hnone
  · have hnil : (l.filter fun a => f a = k).filter (fun a => !p a) = [] :=
      List.filter_eq_nil_iff.mpr fun a ha => by simp [hall a ha]
    rw [List.filter_eq_self.mpr hall, hnil, List.append_nil]
  · have hnil : (l.filter fun a => f a = k).filter p = [] :=
      List.filter_eq_nil_iff.mpr fun a ha => by simp [hnone a ha]
    rw [hnil, List.nil_append]
    exact List.filter_eq_self.mpr fun a ha => by simp [hnone a ha]

end Lookout

/-
Lookout.Proofs.Curve.Reordering — the order in which samples under different
numbers are added does not matter, nor does the order of the segments of a
table.

Two samples at different places of the total order may change places on their
way into any list, ordered or not (`place_place_comm`). Neither has a part in
whether the key of the other is present, so they may change places on their way
into a curve (`add_add_comm`), whatever it holds, NaN keys included. The
segments of a table are judged one by one, so a table stays one in any order,
and says the samples in that order (`Table.read_of_perm`).
-/
import Lookout.Proofs.Curve.Domain
import Lookout.Proofs.Curve.TableGrammar

namespace Lookout

/-! ## Tables -/

/-- The segments of a table form a table in any order. -/
theorem Table.read_of_perm {text : List Char} {segments : List (List Char)}
    {samples : List (Sample Binary64)} (hread : read text = .ok samples)
    (hperm : (text.splitOn ';').Perm segments) :
    ∃ samples', read ([';'].intercalate segments) = .ok samples' ∧ samples.Perm samples' := by
  cases read_eq_ok_iff.mp hread with
  | empty =>
    -- the empty text has one piece, which can change places with none
    obtain rfl : segments = [[]] := List.perm_singleton.mp (by simpa using hperm.symm)
    exact ⟨[], rfl, .refl _⟩
  | segments hcut hsays =>
    rw [Text.isCut_iff.mp hcut] at hperm
    obtain ⟨samples', hsays', hsamples⟩ := List.perm_comp_forall₂ hperm.symm hsays
    have hcut' : Text.IsCut ';' ([';'].intercalate segments) segments := by
      refine ⟨fun hnil => hcut.1 ?_, fun piece hpiece => hcut.2.1 piece (hperm.mem_iff.mpr hpiece),
        rfl⟩
      rw [hnil] at hperm
      exact List.perm_nil.mp hperm
    exact ⟨samples', read_eq_ok_iff.mpr (.segments hcut' hsays'), hsamples.symm⟩

namespace SampledCurve

/-! ## Two samples -/

section Two

variable {s t : Sample Binary64} {c : SampledCurve Binary64}

theorem place_place_of_lt (h : s.position < t.position) (samples : List (Sample Binary64)) :
    place t (place s samples) = place s (place t samples) := by
  induction samples with
  | nil =>
    rw [place_nil, place_nil, place_cons, place_cons, if_pos (by omega), if_neg (by omega),
      place_nil]
  | cons u rest ih =>
    by_cases hu : u.position ≤ s.position
    · have hu' : u.position ≤ t.position := by omega
      rw [place_cons s, if_pos hu, place_cons t, if_pos hu', ih, place_cons t, if_pos hu',
        place_cons s, if_pos hu]
    · -- `s` comes to stand in front, whatever becomes of `t` behind it
      have hfront : place s (place t (u :: rest)) = s :: place t (u :: rest) := by
        rw [place_cons t]
        split
        · rw [place_cons s, if_neg hu]
        · rw [place_cons s, if_neg (by omega)]
      rw [hfront, place_cons s, if_neg hu, place_cons t, if_pos (by omega)]

theorem place_place_comm (h : s.position ≠ t.position) (samples : List (Sample Binary64)) :
    place t (place s samples) = place s (place t samples) := by
  rcases Int.lt_or_gt_of_ne h with hlt | hgt
  · exact place_place_of_lt hlt samples
  · exact (place_place_of_lt hgt samples).symm

theorem hasKey_add_of_ne (h : (s.key == t.key) = false) :
    (c.add s).hasKey t.key = c.hasKey t.key := by
  unfold add
  split
  · rfl
  · rw [Bool.eq_iff_iff]
    simp [hasKey, mem_place, h]

theorem add_add_comm (hkey : (s.key == t.key) = false) (hplace : s.position ≠ t.position) :
    (c.add s).add t = (c.add t).add s := by
  have ht : (c.add s).hasKey t.key = c.hasKey t.key := hasKey_add_of_ne hkey
  have hs : (c.add t).hasKey s.key = c.hasKey s.key :=
    hasKey_add_of_ne ((Binary64.beq_comm _ _).trans hkey)
  rw [add, ht, add, add, hs, add]
  split <;> split <;> simp [*, place_place_comm hplace]

end Two

/-! ## All samples -/

/-- Samples under different numbers: no key is a NaN, and no two are equal. -/
structure DistinctKeys (samples : List (Sample Binary64)) : Prop where
  isNumber : ∀ s ∈ samples, s.key.isNaN = false
  distinct : samples.Pairwise fun s t => (s.key == t.key) = false

theorem DistinctKeys.beq_eq_false {samples : List (Sample Binary64)} (h : DistinctKeys samples)
    {s t : Sample Binary64} (hs : s ∈ samples) (ht : t ∈ samples) (hne : s ≠ t) :
    (s.key == t.key) = false := by
  have : Std.Symm fun s t : Sample Binary64 => (s.key == t.key) = false :=
    ⟨fun u v huv => (Binary64.beq_comm _ _).trans huv⟩
  exact h.distinct.forall hs ht hne

theorem addAll_of_perm {samples samples' : List (Sample Binary64)} (h : DistinctKeys samples)
    (hperm : samples.Perm samples') (c : SampledCurve Binary64) :
    c.addAll samples = c.addAll samples' := by
  refine hperm.foldl_eq' (fun s hs t ht d => ?_) c
  by_cases hst : s = t
  · rw [hst]
  · have hkey := h.beq_eq_false hs ht hst
    exact add_add_comm hkey (Binary64.totalKey_ne_of_beq_eq_false (h.isNumber s hs) hkey)

/-- **The order of samples under different numbers does not matter**, whatever
the curve holds to which they are added, some of their keys or NaNs included.
Nor does the order of the segments of their table: in any order they form a
table again, and both tables give the same curve, put in place of the samples
of any curve or made into a new one, so that both are written as the same text. -/
theorem addAll_and_readers_of_perm {samples : List (Sample Binary64)} (h : DistinctKeys samples)
    (c : SampledCurve Binary64) :
    (∀ samples', samples.Perm samples' →
        (c.addAll samples).samples = (c.addAll samples').samples) ∧
      ∀ text segments, Table.read text = .ok samples → (text.splitOn ';').Perm segments →
        let text' := [';'].intercalate segments
        canParse text' = true ∧
          (∃ d, c.tryParse text = .ok d ∧ c.tryParse text' = .ok d) ∧
          ∀ domain, ∃ d : DomainCurve domain,
            DomainCurve.ofText text = .ok d ∧ DomainCurve.ofText text' = .ok d := by
  refine ⟨fun samples' hperm => congrArg _ (addAll_of_perm h hperm c), ?_⟩
  intro text segments hread hperm text'
  obtain ⟨samples', hread', hsamples⟩ := Table.read_of_perm hread hperm
  have hempty : samples.isEmpty = samples'.isEmpty := by
    rw [Bool.eq_iff_iff, List.isEmpty_iff, List.isEmpty_iff]
    exact ⟨fun hnil => List.nil_perm.mp (hnil ▸ hsamples),
      fun hnil => List.perm_nil.mp (hnil ▸ hsamples)⟩
  refine ⟨by rw [canParse, hread']; rfl, ?_, fun domain => ?_⟩
  · rw [tryParse_eq, tryParse_eq, hread, hread']
    refine ⟨_, rfl, ?_⟩
    rw [Except.map, ← hempty, ← addAll_of_perm h hsamples]
  · rw [DomainCurve.ofText_eq, DomainCurve.ofText_eq, hread, hread']
    refine ⟨_, rfl, ?_⟩
    rw [Except.map, ← addAll_of_perm h hsamples]

/-- Two segments change places, and one of their keys is stored already. -/
theorem addAll_and_readers_of_perm_swap :
    let c := (empty 0).addAll [⟨.nan true, .ofNat 7⟩, ⟨.ofNat 1, .ofNat 9⟩]
    DistinctKeys [⟨.ofNat 5, .ofNat 6⟩, ⟨.ofNat 1, .ofNat 2⟩] ∧
      (c.addAll [⟨.ofNat 5, .ofNat 6⟩, ⟨.ofNat 1, .ofNat 2⟩]).samples =
        (c.addAll [⟨.ofNat 1, .ofNat 2⟩, ⟨.ofNat 5, .ofNat 6⟩]).samples ∧
      Table.read ['5', ',', '6', ';', '1', ',', '2'] =
        .ok [⟨.ofNat 5, .ofNat 6⟩, ⟨.ofNat 1, .ofNat 2⟩] ∧
      ∃ d, c.tryParse ['5', ',', '6', ';', '1', ',', '2'] = .ok d ∧
        c.tryParse ['1', ',', '2', ';', '5', ',', '6'] = .ok d := by
  intro c
  have hkeys : DistinctKeys [⟨.ofNat 5, .ofNat 6⟩, ⟨.ofNat 1, .ofNat 2⟩] :=
    ⟨by decide +kernel, by decide +kernel⟩
  have hread : Table.read ['5', ',', '6', ';', '1', ',', '2'] =
      .ok [⟨.ofNat 5, .ofNat 6⟩, ⟨.ofNat 1, .ofNat 2⟩] := by decide +kernel
  obtain ⟨hadded, htables⟩ := addAll_and_readers_of_perm hkeys c
  obtain ⟨-, htry, -⟩ := htables _ [['1', ',', '2'], ['5', ',', '6']] hread (.swap _ _ _)
  exact ⟨hkeys, hadded _ (.swap _ _ _), hread, htry⟩

end SampledCurve

end Lookout

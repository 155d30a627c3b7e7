/-
Lookout.Proofs.Curve.Domain — every curve of a domain is well formed.

A curve changes by edits, among them the readers, which give another curve or
none. Each of them keeps the samples ordered and the empty value that of the
domain (`WellFormed.apply`), so both hold after any run of edits.
-/
import Lookout.Curve.Domain
import Lookout.Proofs.Curve.Contents
import Lookout.Proofs.Results

namespace Lookout

namespace DomainCurve

open SampledCurve (Ordered)

variable {domain : Domain}

/-! ## Edits -/

/-- What may happen to a curve of a domain. -/
inductive Edit where
  | add (key value : Binary64)
  | parse (text : List Char)
  | ofText (text : List Char)
  | ofJson (json : Json)
  | ofJsonText (text : List Char)

/-- The curve after an edit; a text or a value that describes no curve leaves it as it is. -/
def Edit.apply (c : DomainCurve domain) : Edit → DomainCurve domain
  | .add key value => c.add key value
  | .parse text => c.parse text
  | .ofText text => (DomainCurve.ofText text).toOption.getD c
  | .ofJson json => (DomainCurve.ofJson json).toOption.getD c
  | .ofJsonText text => (DomainCurve.ofJsonText text).toOption.getD c

/-- The curve after some edits, without samples at first. -/
def run (edits : List Edit) : DomainCurve domain := edits.foldl Edit.apply empty

/-- What holds of every curve of a domain. -/
structure WellFormed (c : DomainCurve domain) : Prop where
  ordered : Ordered c.curve.samples
  emptyValue : c.curve.emptyValue = domain.emptyValue

theorem ofText_eq (text : List Char) :
    (ofText text : Except TableError (DomainCurve domain)) = (Table.read text).map fun samples =>
      ⟨(SampledCurve.empty domain.emptyValue).addAll samples⟩ := by
  simp only [ofText, SampledCurve.tryParse]
  cases Table.read text with
  | error e => rfl
  | ok samples => cases samples <;> rfl

theorem exists_ofText_iff (domain : Domain) (text : List Char) :
    (∃ c : DomainCurve domain, ofText text = .ok c) ↔ SampledCurve.canParse text = true := by
  simp [SampledCurve.canParse, isOk_iff, ofText_eq, map_eq_ok_iff]

theorem wellFormed_ofText {text : List Char} {c : DomainCurve domain} (h : ofText text = .ok c) :
    c.WellFormed := by
  rw [ofText_eq, map_eq_ok_iff] at h
  obtain ⟨samples, -, rfl⟩ := h
  exact ⟨((SampledCurve.records_empty _).addAll samples).ordered,
    SampledCurve.addAll_emptyValue _ _⟩

theorem wellFormed_ofJson {json : Json} {c : DomainCurve domain} (h : ofJson json = .ok c) :
    c.WellFormed := by
  unfold ofJson at h
  split at h
  · exact wellFormed_ofText (mapError_eq_ok_iff.mp h)
  · simp at h

theorem wellFormed_ofJsonText {text : List Char} {c : DomainCurve domain}
    (h : ofJsonText text = .ok c) : c.WellFormed := by
  unfold ofJsonText at h
  split at h
  · exact wellFormed_ofText (mapError_eq_ok_iff.mp h)
  all_goals simp at h

theorem WellFormed.getD {ε : Type} {c : DomainCurve domain} (h : c.WellFormed)
    {result : Except ε (DomainCurve domain)} (hresult : ∀ d, result = .ok d → d.WellFormed) :
    (result.toOption.getD c).WellFormed := by
  cases result with
  | error e => exact h
  | ok d => exact hresult d rfl

theorem WellFormed.apply {c : DomainCurve domain} (h : c.WellFormed) (edit : Edit) :
    (edit.apply c).WellFormed := by
  cases edit with
  | add key value =>
    exact ⟨h.ordered.add _, (SampledCurve.add_emptyValue _ _).trans h.emptyValue⟩
  | parse text =>
    exact ⟨h.ordered.parse text, (SampledCurve.parse_emptyValue _ _).trans h.emptyValue⟩
  | ofText text => exact h.getD fun _ => wellFormed_ofText
  | ofJson json => exact h.getD fun _ => wellFormed_ofJson
  | ofJsonText text => exact h.getD fun _ => wellFormed_ofJsonText

theorem wellFormed_empty : (empty : DomainCurve domain).WellFormed :=
  ⟨⟨.nil, .nil⟩, rfl⟩

theorem wellFormed_run (edits : List Edit) : (run edits : DomainCurve domain).WellFormed := by
  have hfold (c : DomainCurve domain) (h : c.WellFormed) :
      (edits.foldl Edit.apply c).WellFormed := by
    induction edits generalizing c with
    | nil => exact h
    | cons edit later ih => exact ih _ (h.apply edit)
  exact hfold empty wellFormed_empty

end DomainCurve

end Lookout

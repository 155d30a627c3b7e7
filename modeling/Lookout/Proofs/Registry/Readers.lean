/-
Lookout.Proofs.Registry.Readers — all readers of sample tables are one.

A text is judged (`canParse`), put in place of the samples of a curve, strictly
(`tryParse`) or tolerantly (`parse`), made into a new curve (`ofText`), found in
a JSON value or document, and registered in an entry. What each of these gives
is said here by what `Table.read` gives, so they accept the same texts, report
the same faults and give the same curve (`readers_agree`).

The readers part at the empty table only: put in place of the samples of a
curve it changes nothing, while a new curve of it has no samples.
-/
import Lookout.Proofs.Curve.TableGrammar
import Lookout.Proofs.Json.Quote
import Lookout.Proofs.Registry.Entries

namespace Lookout

/-! ## Curves -/

namespace DomainCurve

variable {domain : Domain}

theorem ofJson_string (text : List Char) :
    (ofJson (.string text) : Except CurveJsonError (DomainCurve domain)) =
      (ofText text).mapError .malformedTable := rfl

theorem ofJsonText_of_read? {source text : List Char}
    (h : Json.Node.read? (Json.symbolsOfText source) = some (.string (some text))) :
    (ofJsonText source : Except CurveJsonError (DomainCurve domain)) =
      (ofText text).mapError .malformedTable := by
  rw [ofJsonText, h]

theorem ofJson_eq_error {json : Json} (h : ∀ content, json ≠ .string content) :
    (ofJson json : Except CurveJsonError (DomainCurve domain)) = .error .notAString := by
  cases json with
  | string content => exact absurd rfl (h content)
  | _ => rfl

theorem exists_read?_of_ofJsonText {source : List Char} {c : DomainCurve domain}
    (h : ofJsonText source = .ok c) :
    ∃ text, Json.Node.read? (Json.symbolsOfText source) = some (.string (some text)) := by
  unfold ofJsonText at h
  split at h
  · next text hread => exact ⟨text, hread⟩
  all_goals simp at h

theorem parse_empty_of_ofText {text : List Char} {d : DomainCurve domain}
    (h : ofText text = .ok d) : empty.parse text = d := by
  obtain ⟨c, hread, rfl⟩ := map_eq_ok_iff.mp h
  simp only [parse, empty, SampledCurve.parse, hread]

end DomainCurve

/-! ## Entries -/

namespace CurveRegistry

variable {domain : Domain}

/-- The JSON object of an entry. -/
def entryOf (name samples : List Char) : Json :=
  .object [(['n', 'a', 'm', 'e'], .string name),
    (['s', 'a', 'm', 'p', 'l', 'e', 's'], .string samples)]

theorem insertJson_entryOf (r : CurveRegistry domain) (name samples : List Char) :
    r.insertJson (entryOf name samples) =
      ((DomainCurve.ofText samples).map (Registry.insert r name)).mapError
        (.malformedTable name) := by
  have hentry : entry? (entryOf name samples) = some (name, samples) := rfl
  rw [insertJson, Registry.insertJson, bindingOf_curveOf]
  simp only [ofEntry, hentry]
  cases (DomainCurve.ofText samples : Except TableError (DomainCurve domain)) <;> rfl

theorem get_insert (r : CurveRegistry domain) (name : List Char) (d : DomainCurve domain) :
    get (Registry.insert r name d) name = .ok d := by
  simp [get, Registry.get, Registry.get?_insert]

/-! ## Agreement -/

/-- All readers give the curve `d` of a text, the registry under `name`. -/
structure Accepted (text name : List Char) (c : SampledCurve Binary64) (r : CurveRegistry domain)
    (d : DomainCurve domain) : Prop where
  ofText : DomainCurve.ofText text = .ok d
  ofJson : DomainCurve.ofJson (.string text) = .ok d
  ofJsonText : DomainCurve.ofJsonText (Json.quote text) = .ok d
  insertJson : ∃ r', r.insertJson (entryOf name text) = .ok r' ∧ get r' name = .ok d
  parse : DomainCurve.empty.parse text = d
  tryParse : ∃ c', c.tryParse text = .ok c' ∧ c.parse text = c' ∧
    (text ≠ [] → c'.samples = d.curve.samples)

/-- All readers give one fault of a text, the registry with the name. -/
structure Rejected (domain : Domain) (text name : List Char) (c : SampledCurve Binary64)
    (r : CurveRegistry domain) (cause : TableError) : Prop where
  ofText : (DomainCurve.ofText text : Except TableError (DomainCurve domain)) = .error cause
  ofJson : (DomainCurve.ofJson (.string text) : Except CurveJsonError (DomainCurve domain)) =
    .error (.malformedTable cause)
  ofJsonText : (DomainCurve.ofJsonText (Json.quote text) :
    Except CurveJsonError (DomainCurve domain)) = .error (.malformedTable cause)
  insertJson : r.insertJson (entryOf name text) = .error (.malformedTable name cause)
  tryParse : c.tryParse text = .error cause

theorem accepted_of_read {text : List Char} {samples : List (Sample Binary64)}
    (h : Table.read text = .ok samples) (name : List Char) (c : SampledCurve Binary64)
    (r : CurveRegistry domain) :
    Accepted text name c r ⟨(SampledCurve.empty domain.emptyValue).addAll samples⟩ := by
  have htext : DomainCurve.ofText text =
      .ok (⟨(SampledCurve.empty domain.emptyValue).addAll samples⟩ : DomainCurve domain) := by
    rw [DomainCurve.ofText_eq, h]
    rfl
  have htry : c.tryParse text = .ok
      (if samples.isEmpty then c else (SampledCurve.empty c.emptyValue).addAll samples) := by
    rw [SampledCurve.tryParse_eq, h]
    rfl
  refine {
    ofText := htext
    ofJson := by rw [DomainCurve.ofJson_string, htext]; rfl
    ofJsonText := by rw [DomainCurve.ofJsonText_of_read? (Json.read?_quote text), htext]; rfl
    insertJson := ⟨_, by rw [insertJson_entryOf, htext]; rfl, get_insert _ _ _⟩
    parse := DomainCurve.parse_empty_of_ofText htext
    tryParse := ⟨_, htry, by rw [SampledCurve.parse, htry], fun hne => ?_⟩ }
  have hsamples : samples ≠ [] := (Table.read_eq_ok_iff.mp h).ne_nil hne
  rw [if_neg (by simpa using hsamples)]
  exact SampledCurve.samples_addAll_empty _ _ _

theorem rejected_of_read {text : List Char} {cause : TableError}
    (h : Table.read text = .error cause) (name : List Char) (c : SampledCurve Binary64)
    (r : CurveRegistry domain) : Rejected domain text name c r cause := by
  have htext : (DomainCurve.ofText text : Except TableError (DomainCurve domain)) =
      .error cause := by
    rw [DomainCurve.ofText_eq, h]
    rfl
  exact {
    ofText := htext
    ofJson := by rw [DomainCurve.ofJson_string, htext]; rfl
    ofJsonText := by rw [DomainCurve.ofJsonText_of_read? (Json.read?_quote text), htext]; rfl
    insertJson := by rw [insertJson_entryOf, htext]; rfl
    tryParse := by rw [SampledCurve.tryParse_eq, h]; rfl }

/-- **All readers are one.** They accept the same texts, and of these give the
same curve, whatever the curve or the registry held before. Of all others they
report the same fault. Nothing but a string is a curve in JSON. -/
theorem readers_agree (domain : Domain) (text name : List Char) (c : SampledCurve Binary64)
    (r : CurveRegistry domain) :
    (SampledCurve.canParse text = true ↔ (c.tryParse text).isOk = true) ∧
      (SampledCurve.canParse text = true ↔
        (DomainCurve.ofText text : Except TableError (DomainCurve domain)).isOk = true) ∧
      (SampledCurve.canParse text = true ↔ (DomainCurve.ofJson (.string text) :
        Except CurveJsonError (DomainCurve domain)).isOk = true) ∧
      (SampledCurve.canParse text = true ↔ (DomainCurve.ofJsonText (Json.quote text) :
        Except CurveJsonError (DomainCurve domain)).isOk = true) ∧
      (SampledCurve.canParse text = true ↔ (r.insertJson (entryOf name text)).isOk = true) ∧
      (SampledCurve.canParse text = true → ∃ d, Accepted text name c r d) ∧
      (SampledCurve.canParse text = false → ∃ cause, Rejected domain text name c r cause) ∧
      (∀ json : Json, (∀ content, json ≠ .string content) →
        (DomainCurve.ofJson json : Except CurveJsonError (DomainCurve domain)).isOk = false) ∧
      ∀ source, (∀ content, Json.Node.read? (Json.symbolsOfText source) ≠
          some (.string (some content))) →
        (DomainCurve.ofJsonText source : Except CurveJsonError (DomainCurve domain)).isOk =
          false := by
  have hjson (json : Json) (h : ∀ content, json ≠ .string content) :
      (DomainCurve.ofJson json : Except CurveJsonError (DomainCurve domain)).isOk = false := by
    rw [DomainCurve.ofJson_eq_error h]
    rfl
  have hdocument (source : List Char) (h : ∀ content, Json.Node.read? (Json.symbolsOfText source) ≠
      some (.string (some content))) :
      (DomainCurve.ofJsonText source : Except CurveJsonError (DomainCurve domain)).isOk =
        false := by
    rw [Bool.eq_false_iff, ne_eq, isOk_iff]
    rintro ⟨d, hd⟩
    obtain ⟨content, hcontent⟩ := DomainCurve.exists_read?_of_ofJsonText hd
    exact h content hcontent
  cases hread : Table.read text with
  | ok samples =>
    have h := accepted_of_read hread name c r
    obtain ⟨c', htry, -⟩ := h.tryParse
    obtain ⟨r', hinsert, -⟩ := h.insertJson
    have hcan : SampledCurve.canParse text = true := by rw [SampledCurve.canParse, hread]; rfl
    rw [hcan, htry, h.ofText, h.ofJson, h.ofJsonText, hinsert]
    exact ⟨Iff.rfl, Iff.rfl, Iff.rfl, Iff.rfl, Iff.rfl, fun _ => ⟨_, h⟩, by simp, hjson, hdocument⟩
  | error cause =>
    have h := rejected_of_read hread name c r
    have hcan : SampledCurve.canParse text = false := by rw [SampledCurve.canParse, hread]; rfl
    rw [hcan, h.tryParse, h.ofText, h.ofJson, h.ofJsonText, h.insertJson]
    exact ⟨Iff.rfl, Iff.rfl, Iff.rfl, Iff.rfl, Iff.rfl, by simp, fun _ => ⟨_, h⟩, hjson, hdocument⟩

/-- `1,2` is a table and `x` is none; `null` is no string, in a value and in a document. -/
theorem readers_agree_on_one_segment :
    SampledCurve.canParse ['1', ',', '2'] = true ∧
      (∃ d, Accepted ['1', ',', '2'] ['a'] (SampledCurve.empty 0)
        (Registry.empty : CurveRegistry .visualAngle) d) ∧
      SampledCurve.canParse ['x'] = false ∧
      (∃ cause, Rejected .visualAngle ['x'] ['a'] (SampledCurve.empty 0) Registry.empty cause) ∧
      (∀ content, Json.null ≠ .string content) ∧
      (DomainCurve.ofJson .null : Except CurveJsonError (DomainCurve .visualAngle)).isOk = false ∧
      (∀ content, Json.Node.read? (Json.symbolsOfText ['n', 'u', 'l', 'l']) ≠
        some (.string (some content))) ∧
      (DomainCurve.ofJsonText ['n', 'u', 'l', 'l'] :
        Except CurveJsonError (DomainCurve .visualAngle)).isOk = false := by
  have htable : SampledCurve.canParse ['1', ',', '2'] = true := by decide +kernel
  have hnone : SampledCurve.canParse ['x'] = false := by decide +kernel
  have hnull : Json.Node.read? (Json.symbolsOfText ['n', 'u', 'l', 'l']) = some .null := rfl
  have hsource (content : List Char) : Json.Node.read? (Json.symbolsOfText ['n', 'u', 'l', 'l']) ≠
      some (.string (some content)) := by simp [hnull]
  obtain ⟨-, -, -, -, -, haccepted, -, hjson, hdocument⟩ :=
    readers_agree .visualAngle ['1', ',', '2'] ['a'] (SampledCurve.empty 0) Registry.empty
  obtain ⟨-, -, -, -, -, -, hrejected, -⟩ :=
    readers_agree .visualAngle ['x'] ['a'] (SampledCurve.empty 0) Registry.empty
  exact ⟨htable, haccepted htable, hnone, hrejected hnone, nofun, hjson .null nofun, hsource,
    hdocument _ hsource⟩

end CurveRegistry

end Lookout

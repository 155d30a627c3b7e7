/-
Lookout.Proofs.Configuration.Loads — loads are transactions, and the last
writer wins.

A load changes the configuration in place, but it registers both sections in
registries of their own before it does so. So all that can fail comes first
(`runOn_loadInPlace`), and a load that fails leaves the configuration as it is.

A source is accepted if it holds a document and every entry of both sections
is good; this does not depend on what is registered already. An accepted
source is loaded as if its entries were registered one by one in the registry
of their section (`runOn_of_accepted`), any other changes nothing
(`runOn_of_rejected`). So the registries of a run hold what the accepted
sources have written, section by section (`holdsWrites_run`).
-/
import Lookout.Configuration.Basic
import Lookout.Proofs.Registry.Entries

namespace Lookout

open CurveRegistry (acceptable written Binds Holds)

namespace Configuration

/-! ## Reading -/

/-- The document at a source as it is written, its entries not looked at. -/
def node? (source : Source) : Option Json.Node := (symbols? source).bind Json.Node.read?

theorem document_of_node? {source : Source} {node : Json.Node} (h : node? source = some node) :
    document source =
      match Document.ofNode? node with
      | some d => .ok d
      | none => .error .malformedJson := by
  obtain ⟨symbols, hsymbols, hnode⟩ := Option.bind_eq_some_iff.mp h
  cases hsections : Document.ofNode? node <;>
    simp [document, hsymbols, Document.read?, hnode, hsections]

/-! ## One load -/

/-- The document at a source, if all of its entries are good. -/
def accepted? (source : Source) : Option Document :=
  match document source with
  | .ok d =>
    if d.visualAngles.all acceptable && d.errorProbabilities.all acceptable then some d else none
  | .error _ => none

/-- Both registries are sorted. -/
structure Sorted (c : Configuration) : Prop where
  visualAngles : Registry.Sorted c.visualAngles
  errorProbabilities : Registry.Sorted c.errorProbabilities

/-- The curves of a source, in registries of their own, if all of its entries are good. -/
def staged (source : Source) : Except RegistryError Configuration := do
  let d ← document source
  let visualAngles ← CurveRegistry.ofEntries d.visualAngles
  let errorProbabilities ← CurveRegistry.ofEntries d.errorProbabilities
  return ⟨visualAngles, errorProbabilities⟩

/-- Takes over all curves of another configuration. -/
def merge (c other : Configuration) : Configuration :=
  ⟨c.visualAngles.merge other.visualAngles, c.errorProbabilities.merge other.errorProbabilities⟩

/-- **All that can fail comes before the configuration is touched.** -/
theorem runOn_loadInPlace (source : Source) (c : Configuration) :
    (loadInPlace source).runOn c =
      match staged source with
      | .ok other => (.ok (), c.merge other)
      | .error e => (.error e, c) := by
  rw [loadInPlace, staged, InPlace.runOn_ofExcept_bind]
  cases document source with
  | error e => rfl
  | ok d =>
    dsimp only [bind, Except.bind]
    rw [insertDocument, InPlace.runOn_ofExcept_bind]
    cases CurveRegistry.ofEntries d.visualAngles with
    | error e => rfl
    | ok visualAngles =>
      dsimp only
      rw [InPlace.runOn_ofExcept_bind]
      cases CurveRegistry.ofEntries d.errorProbabilities with
      | error e => rfl
      | ok errorProbabilities => rfl

theorem load_eq (c : Configuration) (source : Source) :
    c.load source = (staged source).map c.merge := by
  rw [load, InPlace.outcome, runOn_loadInPlace]
  cases staged source <;> rfl

theorem staged_eq_ok_iff {source : Source} {c : Configuration} :
    staged source = .ok c ↔ ∃ d angles probabilities, document source = .ok d ∧
      Binds d.visualAngles angles ∧ Binds d.errorProbabilities probabilities ∧
      c = ⟨Registry.empty.merge ⟨angles⟩, Registry.empty.merge ⟨probabilities⟩⟩ := by
  simp only [staged, bind_eq_ok_iff, CurveRegistry.ofEntries_eq_ok_iff, pure, Except.pure,
    Except.ok.injEq]
  constructor
  · intro h
    obtain ⟨d, hdocument, _, ⟨angles, hangles, rfl⟩, _, ⟨probabilities, hprobabilities, rfl⟩,
      rfl⟩ := h
    exact ⟨d, angles, probabilities, hdocument, hangles, hprobabilities, rfl⟩
  · intro h
    obtain ⟨d, angles, probabilities, hdocument, hangles, hprobabilities, rfl⟩ := h
    exact ⟨d, hdocument, _, ⟨angles, hangles, rfl⟩, _, ⟨probabilities, hprobabilities, rfl⟩, rfl⟩

theorem accepted?_eq_some_iff {source : Source} {d : Document} :
    accepted? source = some d ↔ document source = .ok d ∧
      d.visualAngles.all acceptable = true ∧ d.errorProbabilities.all acceptable = true := by
  unfold accepted?
  cases document source with
  | error e => simp
  | ok d' =>
    simp only [Except.ok.injEq]
    split
    · next hgood =>
      rw [Bool.and_eq_true] at hgood
      constructor
      · intro h
        obtain rfl := Option.some.inj h
        exact ⟨rfl, hgood⟩
      · intro h
        rw [h.1]
    · next hbad =>
      simp only [reduceCtorEq, false_iff]
      rintro ⟨rfl, hgood⟩
      exact hbad (Bool.and_eq_true _ _ |>.mpr hgood)

/-- What is staged and then merged has the effect of the entries themselves. -/
theorem runOn_of_accepted {c : Configuration} (hc : c.Sorted) {source : Source} {d : Document}
    (h : accepted? source = some d) : ∃ angles probabilities,
      Binds d.visualAngles angles ∧ Binds d.errorProbabilities probabilities ∧
      (loadInPlace source).runOn c = (.ok (), ⟨c.visualAngles.merge ⟨angles⟩,
        c.errorProbabilities.merge ⟨probabilities⟩⟩) := by
  obtain ⟨hdocument, hgood⟩ := accepted?_eq_some_iff.mp h
  rw [← CurveRegistry.exists_binds_iff .visualAngle,
    ← CurveRegistry.exists_binds_iff .errorProbability] at hgood
  obtain ⟨⟨angles, hangles⟩, probabilities, hprobabilities⟩ := hgood
  have hstaged := staged_eq_ok_iff.mpr
    ⟨d, angles, probabilities, hdocument, hangles, hprobabilities, rfl⟩
  refine ⟨angles, probabilities, hangles, hprobabilities, ?_⟩
  rw [runOn_loadInPlace, hstaged, ← Registry.merge_merge hc.visualAngles,
    ← Registry.merge_merge hc.errorProbabilities]
  rfl

/-- A source that is not accepted leaves the configuration as it is. -/
theorem runOn_of_rejected (c : Configuration) {source : Source} (h : accepted? source = none) :
    ∃ e, (loadInPlace source).runOn c = (.error e, c) := by
  cases hstaged : staged source with
  | error e => exact ⟨e, by rw [runOn_loadInPlace, hstaged]⟩
  | ok other =>
    obtain ⟨d, angles, probabilities, hdocument, hangles, hprobabilities, -⟩ :=
      staged_eq_ok_iff.mp hstaged
    have haccepted : accepted? source = some d := by
      rw [accepted?_eq_some_iff, ← CurveRegistry.exists_binds_iff .visualAngle,
        ← CurveRegistry.exists_binds_iff .errorProbability]
      exact ⟨hdocument, ⟨angles, hangles⟩, probabilities, hprobabilities⟩
    simp [haccepted] at h

theorem load_of_rejected (c : Configuration) {source : Source} (h : accepted? source = none) :
    ∃ e, c.load source = .error e := by
  obtain ⟨e, he⟩ := c.runOn_of_rejected h
  exact ⟨e, InPlace.outcome_of_error he⟩

theorem afterLoad_of_rejected (c : Configuration) {source : Source} (h : accepted? source = none) :
    c.afterLoad source = c := by
  obtain ⟨e, he⟩ := c.runOn_of_rejected h
  rw [afterLoad, he]

/-! ## Runs of loads -/

/-- The configuration after attempts to load some sources, without curves at first. -/
def run (sources : List Source) : Configuration := sources.foldl afterLoad empty

/-- What the accepted ones of some sources write in one part of a document, in order. -/
def writes (part : Document → List Json) (sources : List Source) : List (List Char × List Char) :=
  (sources.filterMap accepted?).flatMap fun d => written (part d)

theorem writes_of_accepted (part : Document → List Json) (sources : List Source) {source : Source}
    {d : Document} (h : accepted? source = some d) :
    writes part (sources ++ [source]) = writes part sources ++ written (part d) := by
  simp [writes, h]

theorem writes_of_rejected (part : Document → List Json) (sources : List Source) {source : Source}
    (h : accepted? source = none) : writes part (sources ++ [source]) = writes part sources := by
  simp [writes, h]

/-- Each registry holds what has been written in its own section. -/
structure HoldsWrites (c : Configuration) (sources : List Source) : Prop where
  visualAngles : Holds c.visualAngles (writes Document.visualAngles sources)
  errorProbabilities : Holds c.errorProbabilities (writes Document.errorProbabilities sources)

theorem HoldsWrites.sorted {c : Configuration} {sources : List Source} (h : c.HoldsWrites sources) :
    c.Sorted :=
  ⟨h.visualAngles.sorted, h.errorProbabilities.sorted⟩

/-- What is loaded first of all holds what the sections of the document write. -/
theorem load_empty_of_accepted {source : Source} {d : Document} (h : accepted? source = some d) :
    ∃ c, empty.load source = .ok c ∧ Holds c.visualAngles (written d.visualAngles) ∧
      Holds c.errorProbabilities (written d.errorProbabilities) := by
  have hempty : empty.HoldsWrites [] := ⟨.empty, .empty⟩
  obtain ⟨angles, probabilities, hangles, hprobabilities, hload⟩ :=
    runOn_of_accepted hempty.sorted h
  exact ⟨_, InPlace.outcome_of_ok hload, hempty.visualAngles.merge hangles,
    hempty.errorProbabilities.merge hprobabilities⟩

theorem HoldsWrites.afterLoad {c : Configuration} {sources : List Source}
    (h : c.HoldsWrites sources) (source : Source) :
    (c.afterLoad source).HoldsWrites (sources ++ [source]) := by
  cases haccepted : accepted? source with
  | none =>
    rw [afterLoad_of_rejected c haccepted]
    constructor
    · rw [writes_of_rejected _ _ haccepted]
      exact h.visualAngles
    · rw [writes_of_rejected _ _ haccepted]
      exact h.errorProbabilities
  | some d =>
    obtain ⟨angles, probabilities, hangles, hprobabilities, hload⟩ :=
      runOn_of_accepted h.sorted haccepted
    rw [Configuration.afterLoad, hload]
    constructor
    · rw [writes_of_accepted _ _ haccepted]
      exact h.visualAngles.merge hangles
    · rw [writes_of_accepted _ _ haccepted]
      exact h.errorProbabilities.merge hprobabilities

theorem holdsWrites_run (sources : List Source) : (run sources).HoldsWrites sources := by
  have hfold (c : Configuration) (earlier later : List Source) (h : c.HoldsWrites earlier) :
      (later.foldl Configuration.afterLoad c).HoldsWrites (earlier ++ later) := by
    induction later generalizing c earlier with
    | nil => simpa using h
    | cons source later ih => simpa using ih _ _ (h.afterLoad source)
  exact hfold empty [] sources ⟨.empty, .empty⟩

/-- After any attempts to load, a name is bound in each registry exactly if an
accepted source has written it in the section of the registry, and then to the
curve of the table written last. A further source that is not accepted fails
and changes nothing. An accepted one has the same effect as the registration
of its entries one by one, in each registry those of its own section. -/
theorem run_registries_eq_last_writes (sources : List Source) :
    let c := run sources
    (∀ name, (c.visualAngles.get? name).map Except.ok =
        ((writes Document.visualAngles sources).reverse.lookup name).map DomainCurve.ofText) ∧
      (∀ name, (c.errorProbabilities.get? name).map Except.ok =
        ((writes Document.errorProbabilities sources).reverse.lookup name).map
          DomainCurve.ofText) ∧
      c.visualAngles.names.Pairwise (· < ·) ∧
      c.errorProbabilities.names.Pairwise (· < ·) ∧
      (∀ source, accepted? source = none →
        ∃ e, (loadInPlace source).runOn c = (.error e, c)) ∧
      ∀ source d, accepted? source = some d →
        (loadInPlace source).runOn c = (.ok (), c.afterLoad source) ∧
        CurveRegistry.insertAll c.visualAngles d.visualAngles =
          ((c.afterLoad source).visualAngles, none) ∧
        CurveRegistry.insertAll c.errorProbabilities d.errorProbabilities =
          ((c.afterLoad source).errorProbabilities, none) := by
  intro c
  have h : c.HoldsWrites sources := holdsWrites_run sources
  refine ⟨h.visualAngles.get?, h.errorProbabilities.get?,
    List.pairwise_map.mpr h.sorted.visualAngles, List.pairwise_map.mpr h.sorted.errorProbabilities,
    ?_, ?_⟩
  · intro source hrejected
    exact c.runOn_of_rejected hrejected
  · intro source d haccepted
    obtain ⟨angles, probabilities, hangles, hprobabilities, hload⟩ :=
      runOn_of_accepted h.sorted haccepted
    rw [afterLoad, hload]
    exact ⟨rfl, CurveRegistry.insertAll_eq_none_iff.mpr ⟨angles, hangles, rfl⟩,
      CurveRegistry.insertAll_eq_none_iff.mpr ⟨probabilities, hprobabilities, rfl⟩⟩

/-! ## Written documents -/

/-- The text of an entry. -/
def entryText (name table : List Char) : List Char :=
  ['\x7b', '"', 'n', 'a', 'm', 'e', '"', ':', '"'] ++ name ++
    ['"', ',', '"', 's', 'a', 'm', 'p', 'l', 'e', 's', '"', ':', '"'] ++ table ++ ['"', '\x7d']

/-- The text of a section. -/
def sectionText (key : List Char) (entries : List (List Char)) : List Char :=
  '"' :: key ++ ['"', ':', '['] ++ [','].intercalate entries ++ [']']

def anglesText : List (List Char) → List Char :=
  sectionText ['v', 'i', 's', 'u', 'a', 'l', '_', 'a', 'n', 'g', 'l', 'e']

def probabilitiesText : List (List Char) → List Char :=
  sectionText ['e', 'r', 'r', 'o', 'r', '_', 'p', 'r', 'o', 'b', 'a', 'b', 'i', 'l', 'i', 't', 'y']

/-- The text of an object with two members. -/
def textOfMembers (first second : List Char) : List Char :=
  '\x7b' :: first ++ ',' :: second ++ ['\x7d']

/-- An object with both sections, the second one first, that names a curve twice; and
one whose visual angles are good, but not its error probability. The first one is
loaded, and neither the second one nor a missing file changes anything then. -/
theorem run_registries_late_fault :
    let good := Source.text (textOfMembers (probabilitiesText [entryText ['a'] ['5', ',', '6']])
      (anglesText [entryText ['a'] ['1', ',', '2'], entryText ['a'] ['3', ',', '4']]))
    let bad := Source.text (textOfMembers (anglesText [entryText ['a'] ['7', ',', '8']])
      (probabilitiesText [entryText ['b'] ['x']]))
    let c := run [good, bad, .missing]
    (document bad).toOption.map (·.visualAngles.all acceptable) = some true ∧
      accepted? bad = none ∧ (∃ e, (loadInPlace bad).runOn c = (.error e, c)) ∧
      accepted? .missing = none ∧ (∃ e, (loadInPlace .missing).runOn c = (.error e, c)) ∧
      (∃ d, accepted? good = some d ∧ d.visualAngles.length = 2 ∧
        (loadInPlace good).runOn c = (.ok (), c.afterLoad good)) ∧
      (c.visualAngles.get? ['a']).map Except.ok = some (DomainCurve.ofText ['3', ',', '4']) ∧
      (c.errorProbabilities.get? ['a']).map Except.ok = some (DomainCurve.ofText ['5', ',', '6']) ∧
      c.errorProbabilities.get? ['b'] = none := by
  intro good bad c
  have hbad : accepted? bad = none := Option.not_isSome_iff_eq_none.mp (by decide +kernel)
  have hmissing : accepted? .missing = none := rfl
  obtain ⟨hangle, hprobability, -, -, hfail, hload⟩ :=
    run_registries_eq_last_writes [good, bad, .missing]
  refine ⟨by decide +kernel, hbad, hfail bad hbad, hmissing, hfail .missing hmissing, ?_, ?_, ?_,
    ?_⟩
  · have hlength : (accepted? good).map (·.visualAngles.length) = some 2 := by decide +kernel
    obtain ⟨d, hgood, htwo⟩ := Option.map_eq_some_iff.mp hlength
    exact ⟨d, hgood, htwo, (hload good d hgood).1⟩
  · refine (hangle ['a']).trans ?_
    have hlast : (writes Document.visualAngles [good, bad, .missing]).reverse.lookup ['a'] =
        some ['3', ',', '4'] := by
      decide +kernel
    rw [hlast]
    rfl
  · refine (hprobability ['a']).trans ?_
    have hlast : (writes Document.errorProbabilities [good, bad, .missing]).reverse.lookup ['a'] =
        some ['5', ',', '6'] := by
      decide +kernel
    rw [hlast]
    rfl
  · have hnone : (writes Document.errorProbabilities [good, bad, .missing]).reverse.lookup ['b'] =
        none := by
      decide +kernel
    have hget := hprobability ['b']
    rw [hnone] at hget
    exact Option.map_eq_none_iff.mp hget

end Configuration

end Lookout

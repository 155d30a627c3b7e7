/-
Lookout.Proofs.Report — what a run of the command line prints, from the bytes
of the configuration file to the last line.

A run prints either nothing, because the source is not accepted, or all of the
curves that the document names. A sorted registry finds every name that it
lists, so no curve is passed over (`blocks_eq`), and what a registry lists that
a section alone has filled are the names of the section, each with its last
table (`Lists.of_holds`). The blocks themselves are the ones of the layout, with
the probes written out (`block_eq`).
-/
import Lookout.Report
import Lookout.Proofs.Configuration.Loads

namespace Lookout

open CurveRegistry (written)

namespace Report

/-! ## Blocks -/

/-- The line that names a curve and holds its table. -/
def header {domain : Domain} (start : String) (name : List Char) (curve : DomainCurve domain) :
    List Char :=
  start.toList ++ name ++ "': ".toList ++ curve.text ++ ['\n']

/-- A line that holds a number to some decimals. -/
def line (start : String) (places : Nat) (value : Binary64) (finish : String) : List Char :=
  start.toList ++ value.fixedText places ++ finish.toList

/-- The lines of a visual-angle curve, written out. -/
def angleLines (curve : DomainCurve .visualAngle) : List (List Char) :=
  [line "       0 km/h -> " 2 (curve.evaluate (Binary64.ofNat 0)) " deg\n",
    line "      30 km/h -> " 2 (curve.evaluate (Binary64.ofNat 30)) " deg\n",
    line "      50 km/h -> " 2 (curve.evaluate (Binary64.ofNat 50)) " deg\n",
    line "     100 km/h -> " 2 (curve.evaluate (Binary64.ofNat 100)) " deg\n"]

/-- The lines of an error-probability curve, written out. -/
def probabilityLines (curve : DomainCurve .errorProbability) : List (List Char) :=
  [line "       0 m -> " 3 (curve.evaluate (Binary64.ofNat 0)) "\n",
    line "      50 m -> " 3 (curve.evaluate (Binary64.ofNat 50)) "\n",
    line "     100 m -> " 3 (curve.evaluate (Binary64.ofNat 100)) "\n",
    line "     250 m -> " 3 (curve.evaluate (Binary64.ofNat 250)) "\n"]

/-- The block of a visual-angle curve, written out. -/
def angleBlock (name : List Char) (curve : DomainCurve .visualAngle) : List Char :=
  header "visual angle '" name curve ++ (angleLines curve).flatten

/-- The block of an error-probability curve, written out. -/
def probabilityBlock (name : List Char) (curve : DomainCurve .errorProbability) : List Char :=
  header "error probability '" name curve ++ (probabilityLines curve).flatten

/-- A probe in its field. -/
def Aligned (probe : Nat) (field : String) : Prop :=
  alignRight 6 (Binary64.ofNat probe).shortestText = field.toList

theorem aligned_probes :
    Aligned 0 "     0" ∧ Aligned 30 "    30" ∧ Aligned 50 "    50" ∧ Aligned 100 "   100" ∧
      Aligned 250 "   250" := by
  unfold Aligned
  decide +kernel

theorem Aligned.probeLine_eq {domain : Domain} {probe places : Nat} {field start finish : String}
    (h : Aligned probe field) (curve : DomainCurve domain)
    (hstart : start.toList =
      [' ', ' '] ++ field.toList ++ (layout domain).keyUnit.toList ++ " -> ".toList)
    (hplaces : (layout domain).places = places)
    (hfinish : finish.toList = (layout domain).valueUnit.toList ++ ['\n']) :
    probeLine curve probe = line start places (curve.evaluate (Binary64.ofNat probe)) finish := by
  have hfield : alignRight 6 (Binary64.ofNat probe).shortestText = field.toList := h
  simp only [probeLine, hfield, line, hstart, hplaces, hfinish, List.append_assoc]

theorem map_probeLine_visualAngle (curve : DomainCurve .visualAngle) :
    (layout .visualAngle).probes.map (probeLine curve) = angleLines curve := by
  obtain ⟨h0, h30, h50, h100, -⟩ := aligned_probes
  refine List.cons_eq_cons.mpr ⟨h0.probeLine_eq curve rfl rfl rfl, ?_⟩
  refine List.cons_eq_cons.mpr ⟨h30.probeLine_eq curve rfl rfl rfl, ?_⟩
  refine List.cons_eq_cons.mpr ⟨h50.probeLine_eq curve rfl rfl rfl, ?_⟩
  exact List.cons_eq_cons.mpr ⟨h100.probeLine_eq curve rfl rfl rfl, rfl⟩

theorem map_probeLine_errorProbability (curve : DomainCurve .errorProbability) :
    (layout .errorProbability).probes.map (probeLine curve) = probabilityLines curve := by
  obtain ⟨h0, -, h50, h100, h250⟩ := aligned_probes
  refine List.cons_eq_cons.mpr ⟨h0.probeLine_eq curve rfl rfl rfl, ?_⟩
  refine List.cons_eq_cons.mpr ⟨h50.probeLine_eq curve rfl rfl rfl, ?_⟩
  refine List.cons_eq_cons.mpr ⟨h100.probeLine_eq curve rfl rfl rfl, ?_⟩
  exact List.cons_eq_cons.mpr ⟨h250.probeLine_eq curve rfl rfl rfl, rfl⟩

theorem block_eq {domain : Domain} {start : String} {name : List Char}
    {curve : DomainCurve domain} {lines : List (List Char)}
    (hstart : start.toList = (layout domain).heading.toList ++ " '".toList)
    (hlines : (layout domain).probes.map (probeLine curve) = lines) :
    block name curve = header start name curve ++ lines.flatten := by
  rw [header, hstart, ← hlines]
  rfl

theorem block_visualAngle (name : List Char) (curve : DomainCurve .visualAngle) :
    block name curve = angleBlock name curve :=
  block_eq rfl (map_probeLine_visualAngle curve)

theorem block_errorProbability (name : List Char) (curve : DomainCurve .errorProbability) :
    block name curve = probabilityBlock name curve :=
  block_eq rfl (map_probeLine_errorProbability curve)

/-! ## Registries -/

section Registries

variable {domain : Domain} {r : CurveRegistry domain}

theorem get_of_mem (h : Registry.Sorted r) {binding : List Char × DomainCurve domain}
    (hbinding : binding ∈ r.bindings) : r.get binding.1 = .ok binding.2 := by
  have hfound : Registry.get? r binding.1 = some binding.2 := h.get?_eq_some_iff.mpr hbinding
  simp [CurveRegistry.get, Registry.get, hfound]

/-- Every name that is listed is found. -/
theorem map_get_names (h : Registry.Sorted r) :
    r.names.map r.get = r.bindings.map fun binding => .ok binding.2 := by
  rw [Registry.names, List.map_map]
  exact List.map_congr_left fun binding hbinding => get_of_mem h hbinding

/-- No curve is passed over. -/
theorem blocks_eq (h : Registry.Sorted r) :
    blocks r = r.bindings.flatMap fun binding => block binding.1 binding.2 := by
  rw [blocks, Registry.names, List.flatMap_map]
  refine List.flatMap_congr fun binding hbinding => ?_
  rw [get_of_mem h hbinding]

/-- The names of a section in strictly ascending order, each with the curve of
the last table under it. -/
structure Lists (entries : List Json) (bindings : List (List Char × DomainCurve domain)) :
    Prop where
  ascending : (bindings.map Prod.fst).Pairwise (· < ·)
  mem_iff : ∀ name curve, (name, curve) ∈ bindings ↔
    ∃ table, (written entries).reverse.lookup name = some table ∧
      DomainCurve.ofText table = .ok curve

/-- What a section alone has filled lists it. -/
theorem Lists.of_holds {entries : List Json} (h : r.Holds (written entries)) :
    Lists entries r.bindings where
  ascending := h.sorted.names_ascending
  mem_iff name curve := by
    have hget := h.get? name
    rw [← h.sorted.get?_eq_some_iff]
    constructor
    · intro hfound
      rw [hfound, Option.map_some] at hget
      obtain ⟨table, hlookup, htable⟩ := Option.map_eq_some_iff.mp hget.symm
      exact ⟨table, hlookup, htable⟩
    · intro h
      obtain ⟨table, hlookup, htable⟩ := h
      rw [hlookup, Option.map_some, htable] at hget
      obtain ⟨found, hfound, heq⟩ := Option.map_eq_some_iff.mp hget
      rw [hfound, Except.ok.inj heq]

end Registries

/-- A report on two sorted registries. -/
theorem text_eq {c : Configuration} (h : c.Sorted) :
    text c =
      (c.visualAngles.bindings.flatMap fun binding => angleBlock binding.1 binding.2) ++
        c.errorProbabilities.bindings.flatMap fun binding =>
          probabilityBlock binding.1 binding.2 := by
  simp only [text, blocks_eq h.visualAngles, blocks_eq h.errorProbabilities, block_visualAngle,
    block_errorProbability]

end Report

namespace Outcome

open Lookout.Configuration (textOfMembers anglesText probabilitiesText entryText)

/-- **A run prints all or nothing.** Without an argument, a file or an accepted
source the exit code is one and nothing is printed. Otherwise it is zero, and
what is printed are the blocks of the document: the visual angles by name, then
the error probabilities by name, each name once with the last table under it.
No name that is listed fails to be found, and further arguments change nothing. -/
theorem ofArguments_eq_blocks (files : String → Configuration.Source) :
    ofArguments files [] = ⟨1, []⟩ ∧
      ∀ path others,
        ofArguments files (path :: others) = ofArguments files [path] ∧
        (files path = .missing → ofArguments files [path] = ⟨1, []⟩) ∧
        match Configuration.accepted? (files path) with
        | none =>
          (∃ e, Configuration.empty.load (files path) = .error e) ∧
            ofArguments files [path] = ⟨1, []⟩
        | some d => ∃ c,
          Configuration.empty.load (files path) = .ok c ∧
          Report.Lists d.visualAngles c.visualAngles.bindings ∧
          Report.Lists d.errorProbabilities c.errorProbabilities.bindings ∧
          c.visualAngles.names.map c.visualAngles.get =
            c.visualAngles.bindings.map (.ok ·.2) ∧
          c.errorProbabilities.names.map c.errorProbabilities.get =
            c.errorProbabilities.bindings.map (.ok ·.2) ∧
          ofArguments files [path] = ⟨0,
            (c.visualAngles.bindings.flatMap fun binding =>
              Report.angleBlock binding.1 binding.2) ++
            c.errorProbabilities.bindings.flatMap fun binding =>
              Report.probabilityBlock binding.1 binding.2⟩ := by
  refine ⟨rfl, fun path others => ⟨rfl, fun hmissing => ?_, ?_⟩⟩
  · rw [ofArguments, hmissing]
    rfl
  split
  · next hrejected =>
    obtain ⟨e, he⟩ := Configuration.empty.load_of_rejected hrejected
    refine ⟨⟨e, he⟩, ?_⟩
    rw [ofArguments, he, failure]
  · next d haccepted =>
    obtain ⟨c, hload, hangles, hprobabilities⟩ := Configuration.load_empty_of_accepted haccepted
    refine ⟨c, hload, .of_holds hangles, .of_holds hprobabilities,
      Report.map_get_names hangles.sorted, Report.map_get_names hprobabilities.sorted, ?_⟩
    rw [ofArguments, hload]
    exact congrArg (mk 0) (Report.text_eq ⟨hangles.sorted, hprobabilities.sorted⟩)

/-- A file with both sections, the second one first, that names a curve twice; one
whose last error probability is bad, though all of its visual angles are good; and
a path without a file. -/
theorem ofArguments_eq_blocks_late_fault :
    let good := Configuration.Source.text (textOfMembers
      (probabilitiesText [entryText ['a'] ['0', ',', '1', ';', '2', '5', '0', ',', '0']])
      (anglesText [entryText ['b'] ['5', '0', ',', '4'], entryText ['a'] ['7', ',', '8'],
        entryText ['a'] ['0', ',', '1', ';', '1', '0', '0', ',', '2']]))
    let bad := Configuration.Source.text (textOfMembers
      (anglesText [entryText ['a'] ['7', ',', '8']])
      (probabilitiesText [entryText ['a'] ['0', ',', '1'], entryText ['b'] ['x']]))
    let files (path : String) : Configuration.Source :=
      if path = "good" then good else if path = "bad" then bad else .missing
    files "none" = .missing ∧ ofArguments files ["none", "good"] = ⟨1, []⟩ ∧
      Configuration.accepted? (files "bad") = none ∧
      ofArguments files ["bad", "good"] = ⟨1, []⟩ ∧
      (∃ d c, Configuration.accepted? (files "good") = some d ∧ d.visualAngles.length = 3 ∧
        Configuration.empty.load (files "good") = .ok c ∧
        Report.Lists d.visualAngles c.visualAngles.bindings) ∧
      ofArguments files ["good", "bad"] = ⟨0,
        ["visual angle 'a': 0,1;100,2\n",
          "       0 km/h -> 1.00 deg\n",
          "      30 km/h -> 1.30 deg\n",
          "      50 km/h -> 1.50 deg\n",
          "     100 km/h -> 2.00 deg\n",
          "visual angle 'b': 50,4\n",
          "       0 km/h -> 4.00 deg\n",
          "      30 km/h -> 4.00 deg\n",
          "      50 km/h -> 4.00 deg\n",
          "     100 km/h -> 4.00 deg\n",
          "error probability 'a': 0,1;250,0\n",
          "       0 m -> 1.000\n",
          "      50 m -> 0.800\n",
          "     100 m -> 0.600\n",
          "     250 m -> 0.000\n"].flatMap String.toList⟩ := by
  intro good bad files
  have hmissing : files "none" = .missing := rfl
  have hbad : Configuration.accepted? (files "bad") = none :=
    Option.not_isSome_iff_eq_none.mp (by decide +kernel)
  have hlength : (Configuration.accepted? (files "good")).map (·.visualAngles.length) = some 3 := by
    decide +kernel
  obtain ⟨d, hgood, hthree⟩ := Option.map_eq_some_iff.mp hlength
  obtain ⟨-, hrun⟩ := ofArguments_eq_blocks files
  have hnone := hrun "none" ["good"]
  have hrejected := hrun "bad" ["good"]
  have haccepted := hrun "good" ["bad"]
  rw [hbad] at hrejected
  rw [hgood] at haccepted
  obtain ⟨hfirst, -, c, hload, hlists, -⟩ := haccepted
  refine ⟨hmissing, hnone.1.trans (hnone.2.1 hmissing), hbad, hrejected.1.trans hrejected.2.2.2,
    ⟨d, c, hgood, hthree, hload, hlists⟩, hfirst.trans ?_⟩
  decide +kernel

end Outcome

end Lookout

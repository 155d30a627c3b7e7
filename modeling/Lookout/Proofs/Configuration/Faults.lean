/-
Lookout.Proofs.Configuration.Faults — the fault for which a document is not
loaded.

A document is read as a whole first, so nothing but its shape counts where it
cannot be read. Then its entries are judged, those of the visual angles before
those of the error probabilities (`Document.entries`), and the first bad one ends
the load (`staged_eq_error_iff`). Neither what is registered already nor
the order in which the sections are written plays a part: the members of the
object that is a document may stand in any order (`Document.ofNode?_of_perm`).
-/
import Lookout.Proofs.Configuration.Loads
import Lookout.Proofs.Registry.Faults

namespace Lookout

open CurveRegistry (acceptable FirstFault)

/-! ## Reading -/

namespace Document

open Json (Node)

theorem section?_of_perm (key : List Char) {members members' : List (List Char × Node)}
    (h : members.Perm members') : section? key members = section? key members' := by
  have hfilter : (members.filter (·.1 == key)).Perm (members'.filter (·.1 == key)) := h.filter _
  have hlength := hfilter.length_eq
  unfold section?
  generalize members.filter (·.1 == key) = found at *
  generalize members'.filter (·.1 == key) = found' at *
  rcases found with _ | ⟨first, _ | ⟨second, rest⟩⟩
  · rw [List.nil_perm.mp hfilter]
  · rw [List.singleton_perm.mp hfilter]
  · rcases found' with _ | ⟨first', _ | ⟨second', rest'⟩⟩
    · simp at hlength
    · simp at hlength
    · rfl

/-- The members of a document may stand in any order. -/
theorem ofNode?_of_perm {members members' : List (Option (List Char) × Node)}
    (h : members.Perm members') : ofNode? (.object members) = ofNode? (.object members') := by
  simp only [ofNode?]
  rw [mapM_option_eq_ite, mapM_option_eq_ite, h.all_eq]
  split
  · next hkeys =>
    have hread := h.filterMap fun member : Option (List Char) × Node =>
      member.1.map (·, member.2)
    simp only [Option.bind_eq_bind, Option.bind_some, section?_of_perm _ hread]
  · rfl

/-- The entries of both sections in the order in which they are judged. -/
def entries (d : Document) : List Json := d.visualAngles ++ d.errorProbabilities

end Document

namespace Configuration

/-! ## Loading -/

section Loading

variable {c : Configuration} {source : Source} {d : Document}

theorem exists_staged_iff (h : document source = .ok d) :
    (∃ other, staged source = .ok other) ↔ ∀ json ∈ d.entries, acceptable json = true := by
  rw [Document.entries, List.forall_mem_append,
    ← CurveRegistry.exists_ofEntries_iff .visualAngle,
    ← CurveRegistry.exists_ofEntries_iff .errorProbability]
  simp only [staged, h, bind_eq_ok_iff, pure, Except.pure, Except.ok.injEq, exists_eq_left']
  constructor
  · intro h
    obtain ⟨_, angles, hangles, probabilities, hprobabilities, -⟩ := h
    exact ⟨⟨angles, hangles⟩, probabilities, hprobabilities⟩
  · intro h
    obtain ⟨⟨angles, hangles⟩, probabilities, hprobabilities⟩ := h
    exact ⟨_, angles, hangles, probabilities, hprobabilities, rfl⟩

/-- **The first bad entry ends the load**; a section is reached if the one before it is good. -/
theorem staged_eq_error_iff {e : RegistryError} (h : document source = .ok d) :
    staged source = .error e ↔ FirstFault d.entries e := by
  rw [Document.entries, CurveRegistry.firstFault_append_iff,
    ← CurveRegistry.exists_ofEntries_iff .visualAngle,
    ← CurveRegistry.ofEntries_eq_error_iff .visualAngle,
    ← CurveRegistry.ofEntries_eq_error_iff .errorProbability]
  simp only [staged, h, bind_eq_error_iff, pure, Except.pure, reduceCtorEq, and_false,
    exists_false, or_false, false_or, Except.ok.injEq, exists_eq_left', exists_and_right]

theorem exists_load_iff (c : Configuration) (h : document source = .ok d) :
    (∃ c', c.load source = .ok c') ↔ ∀ json ∈ d.entries, acceptable json = true := by
  rw [← exists_staged_iff h, load_eq]
  cases staged source <;> simp [Except.map]

theorem load_eq_error_iff (c : Configuration) (h : document source = .ok d) {e : RegistryError} :
    c.load source = .error e ↔ FirstFault d.entries e := by
  rw [← staged_eq_error_iff h, load_eq]
  cases staged source <;> simp [Except.map]

/-- What is loaded does not depend on more of a source than its document. -/
theorem load_congr (c : Configuration) {source' : Source} (h : document source' = document source) :
    c.load source' = c.load source := by
  rw [load_eq, load_eq, staged, staged, h]

theorem load_of_document_error (c : Configuration) {e : RegistryError}
    (h : document source = .error e) : c.load source = .error e := by
  rw [load_eq, staged, h]
  rfl

end Loading

/-- **A load fails for the first bad entry of its document**, and for no other
reason once the document has been read: the visual angles come first, whatever
the order of the sections, and neither what is registered already nor the entries
behind the bad one play a part. What cannot be read as a document is malformed
JSON, whatever entries are in it. -/
theorem load_error_eq_first_fault (c : Configuration) (source : Source) :
    (∀ d, document source = .ok d →
        ((∃ c', c.load source = .ok c') ↔ ∀ json ∈ d.entries, acceptable json = true) ∧
        ∀ e, c.load source = .error e ↔ FirstFault d.entries e) ∧
      (∀ source' members members', node? source = some (.object members) →
        node? source' = some (.object members') → members.Perm members' →
        c.load source' = c.load source) ∧
      ∀ symbols, symbols? source = some symbols → Document.read? symbols = none →
        c.load source = .error .malformedJson := by
  refine ⟨?_, ?_, ?_⟩
  · intro d hdocument
    exact ⟨c.exists_load_iff hdocument, fun _ => c.load_eq_error_iff hdocument⟩
  · intro source' members members' hnode hnode' hperm
    apply c.load_congr
    rw [document_of_node? hnode, document_of_node? hnode', Document.ofNode?_of_perm hperm]
  · intro symbols hsymbols hnone
    apply c.load_of_document_error
    simp only [document, hsymbols, hnone]

/-- A section with a bad table and with a value that is no entry. -/
def badAngles : List Char := anglesText [entryText ['a'] ['x'], ['n', 'u', 'l', 'l']]

/-- A section with a value that is no entry. -/
def badProbabilities : List Char := probabilitiesText [['n', 'u', 'l', 'l']]

/-- Of three bad entries the table of the first visual angle counts, in either order
of the sections, unless the document breaks off. -/
theorem load_error_eq_first_fault_three_bad_entries :
    let entry : Json := .object [(['n', 'a', 'm', 'e'], .string ['a']),
      (['s', 'a', 'm', 'p', 'l', 'e', 's'], .string ['x'])]
    let e : RegistryError := .malformedTable ['a'] (.fieldCount 0 ['x'] 1)
    let text := textOfMembers badProbabilities badAngles
    document (.text text) = .ok ⟨[entry, .null], [.null]⟩ ∧ FirstFault [entry, .null, .null] e ∧
      empty.load (.text text) = .error e ∧
      empty.load (.text (textOfMembers badAngles badProbabilities)) = .error e ∧
      Document.read? (Json.symbolsOfText text.dropLast) = none ∧
      empty.load (.text text.dropLast) = .error .malformedJson := by
  intro entry e text
  obtain ⟨angles, hangles⟩ : ∃ node, node = (some Document.visualAngleKey,
      Json.Node.array [.object [(some ['n', 'a', 'm', 'e'], .string (some ['a'])),
        (some ['s', 'a', 'm', 'p', 'l', 'e', 's'], .string (some ['x']))], .null]) := ⟨_, rfl⟩
  obtain ⟨probabilities, hprobabilities⟩ : ∃ node,
      node = (some Document.errorProbabilityKey, Json.Node.array [.null]) := ⟨_, rfl⟩
  have hnode : node? (.text text) = some (.object [probabilities, angles]) := by
    rw [hangles, hprobabilities]
    rfl
  have hnode' : node? (.text (textOfMembers badAngles badProbabilities)) =
      some (.object [angles, probabilities]) := by
    rw [hangles, hprobabilities]
    rfl
  have hsections : Document.ofNode? (.object [probabilities, angles]) =
      some ⟨[entry, .null], [.null]⟩ := by
    rw [hangles, hprobabilities]
    rfl
  have hbrokenOff : Document.read? (Json.symbolsOfText text.dropLast) = none := rfl
  have hdocument : document (.text text) = .ok ⟨[entry, .null], [.null]⟩ := by
    rw [document_of_node? hnode, hsections]
  have hfault : FirstFault [entry, .null, .null] e :=
    ⟨[], entry, [.null, .null], rfl, by simp,
      .table (CurveRegistry.entry?_eq_some_iff.mp rfl) (by decide +kernel)⟩
  obtain ⟨hfirst, hswap, -⟩ := load_error_eq_first_fault empty (.text text)
  obtain ⟨-, -, hmalformed⟩ := load_error_eq_first_fault empty (.text text.dropLast)
  have herror := ((hfirst _ hdocument).2 e).mpr hfault
  have hswapped := hswap _ _ _ hnode hnode' (.swap _ _ _)
  exact ⟨hdocument, hfault, herror, hswapped.trans herror, hbrokenOff,
    hmalformed _ rfl hbrokenOff⟩

end Configuration

end Lookout

/-
Lookout.Configuration.Document — the two sections of a configuration document.

A document is an object with the sections `visual_angle` and
`error_probability`, each a list of entries; a missing section is empty, and
other keys are ignored. It may also be an array that holds the sections in
this order. All of the document is read before an entry is looked at: the
values of other keys are only skipped, but entries are read in full, and the
document nests at most 127 levels there.
-/
import Lookout.Json.Node
import Lookout.Json.Source

namespace Lookout

/-- The entries of the two sections. -/
structure Document where
  visualAngles : List Json
  errorProbabilities : List Json

namespace Document

open Json

def visualAngleKey : List Char := "visual_angle".toList

def errorProbabilityKey : List Char := "error_probability".toList

/-- Arrays and objects inside one another, the document and the section included. -/
def maxDepth : Nat := 127

/-- The entries of a section, which lies two levels deep. -/
def entries? : Node → Option (List Json)
  | .array items => items.mapM (Node.value? (maxDepth - 2))
  | _ => none

/-- The entries of the section under a key, which may occur once. -/
def section? (key : List Char) (members : List (List Char × Node)) : Option (List Json) :=
  match members.filter (·.1 == key) with
  | [] => some []
  | [(_, node)] => entries? node
  | _ => none

/-- The sections of a document. -/
def ofNode? : Node → Option Document
  | .object members => do
    let members ← members.mapM fun (key, node) => key.map (·, node)
    return ⟨← section? visualAngleKey members, ← section? errorProbabilityKey members⟩
  | .array [] => some ⟨[], []⟩
  | .array [first] => (entries? first).map (⟨·, []⟩)
  | .array [first, second] => do return ⟨← entries? first, ← entries? second⟩
  | _ => none

/-- Reads a document from its symbols. -/
def read? (symbols : List Symbol) : Option Document := (Node.read? symbols).bind ofNode?

end Document

end Lookout

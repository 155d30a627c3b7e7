/-
Lookout.Configuration.Basic — the named curves of both domains, loaded from
configuration documents.

A load takes all of a document or nothing: both sections are registered on
their own first and taken over only when no entry has failed. Curves that a
document names again are replaced.
-/
import Lookout.Configuration.Document
import Lookout.Registry.Curves

namespace Lookout

/-- Named curves of both domains. -/
structure Configuration where
  visualAngles : CurveRegistry .visualAngle
  errorProbabilities : CurveRegistry .errorProbability

namespace Configuration

/-- Where a document comes from: a text, the bytes of a file, or a path at which
no file can be read. -/
inductive Source where
  | text (content : List Char)
  | file (content : ByteArray)
  | missing

def empty : Configuration := ⟨Registry.empty, Registry.empty⟩

/-! ## Sources -/

/-- The symbols at a source, if there is anything to read. -/
def symbols? : Source → Option (List Json.Symbol)
  | .text content => some (Json.symbolsOfText content)
  | .file content => some (Json.symbolsOfBytes content)
  | .missing => none

/-- The document at a source. -/
def document (source : Source) : Except RegistryError Document :=
  match symbols? source with
  | none => .error .unreadableFile
  | some symbols =>
    match Document.read? symbols with
    | some d => .ok d
    | none => .error .malformedJson

/-! ## Loads -/

/-- Registers the entries of a document, those of each section in a registry of
their own first. -/
def insertDocument (d : Document) : InPlace RegistryError Configuration Unit := do
  let visualAngles ← MonadExcept.ofExcept (CurveRegistry.ofEntries d.visualAngles)
  let errorProbabilities ← MonadExcept.ofExcept (CurveRegistry.ofEntries d.errorProbabilities)
  modify fun c => { c with visualAngles := c.visualAngles.merge visualAngles }
  modify fun c => { c with errorProbabilities := c.errorProbabilities.merge errorProbabilities }

/-- Loads the document at a source. -/
def loadInPlace (source : Source) : InPlace RegistryError Configuration Unit := do
  insertDocument (← MonadExcept.ofExcept (document source))

/-- The configuration with the document at a source, if that can be loaded. -/
def load (c : Configuration) (source : Source) : Except RegistryError Configuration :=
  (loadInPlace source).outcome c

/-- The configuration that an attempt to load leaves, whether or not it fails. -/
def afterLoad (c : Configuration) (source : Source) : Configuration :=
  ((loadInPlace source).runOn c).2

end Configuration

end Lookout

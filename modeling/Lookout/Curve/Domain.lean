/-
Lookout.Curve.Domain — lookup curves with a physical meaning.

A visual-angle curve gives the angle in degrees that a driver sees at a
velocity in km/h; an error-probability curve gives the probability, from 0 to
1, that a predicted signal state is wrong at a distance in metres. Without any
sample a driver sees the full circle, and predictions are never wrong. A curve
is stored as its sample table, in JSON as a string.
-/
import Lookout.Curve.Text
import Lookout.Json.Node
import Lookout.Json.Source
import Lookout.Numeric.Binary64.Arithmetic

namespace Lookout

/-- What the keys and the values of a curve mean. -/
inductive Domain where
  | visualAngle
  | errorProbability
deriving DecidableEq

/-- The value of a curve without samples. -/
def Domain.emptyValue : Domain → Binary64
  | .visualAngle => Binary64.ofNat 360
  | .errorProbability => 0

/-- A curve of one domain. -/
structure DomainCurve (domain : Domain) where
  curve : SampledCurve Binary64
deriving DecidableEq

/-- Why a JSON value or document is no curve. -/
inductive CurveJsonError where
  | malformedDocument
  | notAString
  | malformedTable (cause : TableError)
deriving DecidableEq

namespace DomainCurve

variable {domain : Domain}

/-- The curve without samples. -/
def empty : DomainCurve domain := ⟨.empty domain.emptyValue⟩

def add (c : DomainCurve domain) (key value : Binary64) : DomainCurve domain :=
  ⟨c.curve.add ⟨key, value⟩⟩

/-- Replaces the samples by those of a table; a text that is none changes nothing. -/
def parse (c : DomainCurve domain) (text : List Char) : DomainCurve domain := ⟨c.curve.parse text⟩

def evaluate (c : DomainCurve domain) (query : Binary64) : Binary64 := c.curve.evaluate query

instance : Curve (DomainCurve domain) Binary64 where
  value c query := Curve.value c.curve query
  derivative c query := Curve.derivative c.curve query

/-- The sample table of a curve. -/
def text (c : DomainCurve domain) : List Char := c.curve.text

/-- The curve that a sample table describes. -/
def ofText (text : List Char) : Except TableError (DomainCurve domain) :=
  ((SampledCurve.empty domain.emptyValue).tryParse text).map DomainCurve.mk

/-! ## JSON -/

/-- The curve as the source text of a JSON string. -/
def toJsonText (c : DomainCurve domain) : List Char := Json.quote c.text

/-- The curve that a JSON value describes: only strings do. -/
def ofJson (json : Json) : Except CurveJsonError (DomainCurve domain) :=
  match json.string? with
  | some text => (ofText text).mapError .malformedTable
  | none => .error .notAString

/-- The curve that a JSON document describes. -/
def ofJsonText (text : List Char) : Except CurveJsonError (DomainCurve domain) :=
  match Json.Node.read? (Json.symbolsOfText text) with
  | some (.string (some content)) => (ofText content).mapError .malformedTable
  | some (.string none) => .error .malformedDocument
  | some _ => .error .notAString
  | none => .error .malformedDocument

end DomainCurve

/-- The angle in degrees that a driver sees at a velocity in km/h. -/
def DomainCurve.angleDegrees (c : DomainCurve .visualAngle) (velocity : Binary64) : Binary64 :=
  c.evaluate velocity

/-- The probability that a signal state prediction is wrong at a distance in metres. -/
def DomainCurve.probability (c : DomainCurve .errorProbability) (distance : Binary64) : Binary64 :=
  c.evaluate distance

end Lookout

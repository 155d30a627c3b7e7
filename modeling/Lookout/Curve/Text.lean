/-
Lookout.Curve.Text — curves and their sample tables.

A curve is written as the table of its samples. Reading a table into a curve
replaces all of its samples, or none: an empty table and a text that is no
table leave the curve as it is.
-/
import Lookout.Curve.Basic
import Lookout.Curve.Table

namespace Lookout

namespace SampledCurve

/-- The sample table of a curve. -/
def text (c : SampledCurve Binary64) : List Char := Table.write c.samples

/-- Whether a text is a sample table. -/
def canParse (text : List Char) : Bool := (Table.read text).isOk

/-- Replaces the samples by those of a table. An empty table changes nothing. -/
def tryParse (c : SampledCurve Binary64) (text : List Char) :
    Except TableError (SampledCurve Binary64) := do
  let samples ← Table.read text
  return if samples.isEmpty then c else (empty c.emptyValue).addAll samples

/-- Replaces the samples by those of a table; a text that is none changes nothing. -/
def parse (c : SampledCurve Binary64) (text : List Char) : SampledCurve Binary64 :=
  match c.tryParse text with
  | .ok parsed => parsed
  | .error _ => c

end SampledCurve

end Lookout

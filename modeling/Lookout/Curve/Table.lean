/-
Lookout.Curve.Table — the text form of a list of samples: `key,value`
segments joined by `;`, as in `10.5,2.3;20,4.1;35.2,6`.

The empty text is the empty table. Otherwise every piece between semicolons
is a segment of exactly two fields, and a field is a numeral with blanks
around it. The first fault of a text is the one that is reported: segments
from left to right, in each the number of fields, then the key, then the
value. Tables are written with the shortest numerals that read back.
-/
import Lookout.Curve.Sample
import Lookout.Numeric.Decimal.Shortest
import Lookout.Numeric.Numeral
import Lookout.Text.Blank

namespace Lookout

/-- Why a text is no sample table. Segments count from zero. -/
inductive TableError where
  | fieldCount (index : Nat) (segment : List Char) (fields : Nat)
  | emptyNumber (index : Nat)
  | invalidNumber (index : Nat) (token : List Char)
deriving DecidableEq

def TableError.message : TableError → String
  | .fieldCount index segment fields =>
    s!"segment {index} '{String.ofList segment}' has {fields} field(s), expected 2"
  | .emptyNumber index => s!"segment {index}: empty number"
  | .invalidNumber index token =>
    s!"segment {index}: invalid number '{String.ofList token}': invalid float literal"

namespace Table

/-! ## Reading -/

/-- Reads the number in a field of the segment `index`. -/
def readField (index : Nat) (field : List Char) : Except TableError Binary64 :=
  let token := Text.trim field
  if token.isEmpty then .error (.emptyNumber index)
  else match Binary64.ofText? token with
    | some x => .ok x
    | none => .error (.invalidNumber index token)

/-- Reads the segment `index`: a key and a value. -/
def readSegment (index : Nat) (segment : List Char) : Except TableError (Sample Binary64) :=
  match segment.splitOn ',' with
  | [key, value] => do
    let key ← readField index key
    let value ← readField index value
    return ⟨key, value⟩
  | fields => .error (.fieldCount index segment fields.length)

/-- Reads segments, the first of which has the given index. -/
def readSegments (index : Nat) : List (List Char) → Except TableError (List (Sample Binary64))
  | [] => .ok []
  | segment :: rest => do
    let sample ← readSegment index segment
    let samples ← readSegments (index + 1) rest
    return sample :: samples

/-- Reads a table; the samples come in the order of the text. -/
def read (text : List Char) : Except TableError (List (Sample Binary64)) :=
  if text.isEmpty then .ok [] else readSegments 0 (text.splitOn ';')

/-! ## Writing -/

/-- The segment of one sample. -/
def segment (s : Sample Binary64) : List Char :=
  s.key.shortestText ++ ',' :: s.value.shortestText

/-- The table of some samples. -/
def write (samples : List (Sample Binary64)) : List Char :=
  List.intercalate [';'] (samples.map segment)

end Table

end Lookout

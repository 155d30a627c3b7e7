/-
Lookout.Json.Node — the structure of a JSON document before its values are
judged.

A document is read in one pass over its tokens. What is open around the
current place is kept as a list of frames, so documents may nest as deeply as
they like. A `Node` still tells apart what a value may hold and what only a
skipped value may hold: text that is none, numbers that are too large, any
depth. `Node.value?` turns a node into a `Json` value within a given depth.
-/
import Lookout.Json.Basic
import Lookout.Json.Token

namespace Lookout

namespace Json

/-- A value of a document as it is written. -/
inductive Node where
  | null
  | bool (value : Bool)
  | number (value : Option Binary64)
  | string (content : Option (List Char))
  | array (items : List Node)
  | object (members : List (Option (List Char) × Node))

/-! ## Reading -/

/-- An array or an object that is still open, with what it holds so far, the
last part first; an object waits for the value of a key. -/
inductive Frame where
  | array (items : List Node)
  | object (members : List (Option (List Char) × Node)) (key : Option (List Char))

/-- What may come next, and what is open around it. -/
inductive Reading where
  | value (frames : List Frame)
  | firstItem (frames : List Frame)
  | firstMember (frames : List Frame)
  | nextMember (members : List (Option (List Char) × Node)) (frames : List Frame)
  | colon (members : List (Option (List Char) × Node)) (key : Option (List Char))
      (frames : List Frame)
  | afterItem (items : List Node) (frames : List Frame)
  | afterMember (members : List (Option (List Char) × Node)) (frames : List Frame)
  | finished (document : Node)

namespace Reading

/-- A value is complete inside the given frames. -/
def complete (node : Node) : List Frame → Reading
  | [] => .finished node
  | .array items :: frames => .afterItem (node :: items) frames
  | .object members key :: frames => .afterMember ((key, node) :: members) frames

/-- A value begins inside the given frames. -/
def begin? (frames : List Frame) : Token → Option Reading
  | .openBracket => some (.firstItem frames)
  | .openBrace => some (.firstMember frames)
  | .null => some (complete .null frames)
  | .bool b => some (complete (.bool b) frames)
  | .number v => some (complete (.number v) frames)
  | .string s => some (complete (.string s) frames)
  | _ => none

/-- One token of the document. -/
def next? : Reading → Token → Option Reading
  | .value frames, t => begin? frames t
  | .firstItem frames, .closeBracket => some (complete (.array []) frames)
  | .firstItem frames, t => begin? (.array [] :: frames) t
  | .firstMember frames, .closeBrace => some (complete (.object []) frames)
  | .firstMember frames, .string key => some (.colon [] key frames)
  | .nextMember members frames, .string key => some (.colon members key frames)
  | .colon members key frames, .colon => some (.value (.object members key :: frames))
  | .afterItem items frames, .comma => some (.value (.array items :: frames))
  | .afterItem items frames, .closeBracket => some (complete (.array items.reverse) frames)
  | .afterMember members frames, .comma => some (.nextMember members frames)
  | .afterMember members frames, .closeBrace => some (complete (.object members.reverse) frames)
  | _, _ => none

end Reading

/-- Reads a whole document. -/
def Node.read? (symbols : List Symbol) : Option Node := do
  let tokens ← tokens? symbols
  match ← tokens.foldlM Reading.next? (.value []) with
  | .finished document => some document
  | _ => none

/-! ## Values -/

/-- The value of a node that nests at most `depth` arrays and objects, if all
its strings and keys are text and none of its numbers is too large. -/
def Node.value? : Nat → Node → Option Json
  | _, .null => some .null
  | _, .bool b => some (.bool b)
  | _, .number v => v.map .number
  | _, .string s => s.map .string
  | depth + 1, .array items => Option.map Json.array (items.mapM (value? depth))
  | depth + 1, .object members =>
    Option.map Json.object (members.mapM fun (key, node) => do
      return (← key, ← value? depth node))
  | 0, .array _ => none
  | 0, .object _ => none

end Json

end Lookout

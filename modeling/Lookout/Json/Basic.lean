/-
Lookout.Json.Basic — JSON values, and the written form of a string.
-/
import Lookout.Numeric.Binary64.Basic

namespace Lookout

/-- A JSON value. The members of an object stand in the order of the document. -/
inductive Json where
  | null
  | bool (value : Bool)
  | number (value : Binary64)
  | string (content : List Char)
  | array (items : List Json)
  | object (members : List (List Char × Json))

namespace Json

/-- The member of an object with a given name; of several the last. -/
def member? (name : List Char) : Json → Option Json
  | .object members => members.reverse.lookup name
  | _ => none

/-- The content of a string. -/
def string? : Json → Option (List Char)
  | .string content => some content
  | _ => none

/-! ## Writing strings -/

/-- A character inside a quoted string. Only the quote, the backslash and the
control characters below the blank are escaped. -/
def escaped (c : Char) : List Char :=
  if c = '"' then ['\\', '"']
  else if c = '\\' then ['\\', '\\']
  else if c = '\x08' then ['\\', 'b']
  else if c = '\x0c' then ['\\', 'f']
  else if c = '\n' then ['\\', 'n']
  else if c = '\r' then ['\\', 'r']
  else if c = '\t' then ['\\', 't']
  else if c < ' ' then ['\\', 'u', '0', '0', Nat.digitChar (c.toNat / 16),
    Nat.digitChar (c.toNat % 16)]
  else [c]

/-- A string between quotes. -/
def quote (content : List Char) : List Char := '"' :: (content.flatMap escaped ++ ['"'])

end Json

end Lookout

/-
Lookout.Json.Source — the symbols of a JSON document that is given as text or
as bytes.

Bytes are read as UTF-8. A byte at which no character begins is one symbol
that is no text, and reading goes on behind it, so a quote or a bracket is
never lost.
-/
import Lookout.Json.Token

namespace Lookout

namespace Json

/-- The symbols of a text. -/
def symbolsOfText (text : List Char) : List Symbol := text.map some

/-- The symbols from a position on, behind those found already. Each step takes
at least one byte, so as many steps as there are bytes suffice. -/
def symbolsFrom (bytes : ByteArray) (found : List Symbol) : Nat → Nat → List Symbol
  | 0, _ => found.reverse
  | steps + 1, position =>
    if position < bytes.size then
      match bytes.utf8DecodeChar? position with
      | some c => symbolsFrom bytes (some c :: found) steps (position + c.utf8Size)
      | none => symbolsFrom bytes (none :: found) steps (position + 1)
    else found.reverse

/-- The symbols of a file. -/
def symbolsOfBytes (bytes : ByteArray) : List Symbol := symbolsFrom bytes [] bytes.size 0

end Json

end Lookout

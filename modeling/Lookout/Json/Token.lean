/-
Lookout.Json.Token — the tokens of a JSON document.

A document is a list of symbols: characters, and marks for the bytes that are
no text. Such a mark is allowed inside a string only. Tokens are as strict as
the JSON grammar, but they do not judge what a value that is merely skipped
may hold: the content of a string is absent if it is no text, and the value of
a number if it is too large.
-/
import Lookout.Json.Number

namespace Lookout

namespace Json

/-- A character of a document, or nothing where its bytes are no text. -/
abbrev Symbol := Option Char

inductive Token where
  | openBracket
  | closeBracket
  | openBrace
  | closeBrace
  | comma
  | colon
  | null
  | bool (value : Bool)
  | number (value : Option Binary64)
  | string (content : Option (List Char))
deriving DecidableEq

/-! ## Strings -/

/-- What one place of a quoted string stands for. -/
inductive StringPart where
  | char (c : Char)
  | code (unit : Nat)
  | invalid
deriving DecidableEq

def hexValue? (c : Char) : Option Nat :=
  if c.isDigit then some (c.toNat - '0'.toNat)
  else if 'a' ≤ c ∧ c ≤ 'f' then some (c.toNat - 'a'.toNat + 10)
  else if 'A' ≤ c ∧ c ≤ 'F' then some (c.toNat - 'A'.toNat + 10)
  else none

/-- The number that four hexadecimal digits write. -/
def codeUnit? (a b c d : Symbol) : Option Nat := do
  let a ← hexValue? (← a)
  let b ← hexValue? (← b)
  let c ← hexValue? (← c)
  let d ← hexValue? (← d)
  return 4096 * a + 256 * b + 16 * c + d

/-- The character that a backslash and one letter write. -/
def unescaped? : Symbol → Option Char
  | some '"' => some '"'
  | some '\\' => some '\\'
  | some '/' => some '/'
  | some 'b' => some '\x08'
  | some 'f' => some '\x0c'
  | some 'n' => some '\n'
  | some 'r' => some '\r'
  | some 't' => some '\t'
  | _ => none

/-- The parts of a string up to its closing quote, behind those found already,
and what follows the quote. -/
def stringParts? (found : List StringPart) :
    List Symbol → Option (List StringPart × List Symbol)
  | [] => none
  | none :: rest => stringParts? (.invalid :: found) rest
  | some c :: rest =>
    if c = '"' then some (found.reverse, rest)
    else if c = '\\' then
      match rest with
      | some 'u' :: h₁ :: h₂ :: h₃ :: h₄ :: rest =>
        match codeUnit? h₁ h₂ h₃ h₄ with
        | some unit => stringParts? (.code unit :: found) rest
        | none => none
      | letter :: rest =>
        match unescaped? letter with
        | some e => stringParts? (.char e :: found) rest
        | none => none
      | [] => none
    else if c < ' ' then none
    else stringParts? (.char c :: found) rest

/-- The text that the parts of a string make up, behind the characters found
already. A high and a low surrogate together write one character; a surrogate
without its partner is no text. -/
def content? (found : List Char) : List StringPart → Option (List Char)
  | [] => some found.reverse
  | .char c :: rest => content? (c :: found) rest
  | .invalid :: _ => none
  | .code unit :: rest =>
    if 0xD800 ≤ unit ∧ unit < 0xDC00 then
      match rest with
      | .code low :: rest =>
        if 0xDC00 ≤ low ∧ low < 0xE000 then
          content?
            (Char.ofNat (0x10000 + 0x400 * (unit - 0xD800) + (low - 0xDC00)) :: found) rest
        else none
      | _ => none
    else if 0xDC00 ≤ unit ∧ unit < 0xE000 then none
    else content? (Char.ofNat unit :: found) rest

/-! ## Numbers and words -/

/-- The characters of which numbers consist. -/
def isNumeric (c : Char) : Bool :=
  c.isDigit || c == '+' || c == '-' || c == '.' || c == 'e' || c == 'E'

/-- The characters at the beginning of a document that satisfy a test. -/
def run (test : Char → Bool) (symbols : List Symbol) : List Char :=
  (symbols.takeWhile (Option.any test)).filterMap id

/-- What follows the characters at the beginning that satisfy a test. -/
def afterRun (test : Char → Bool) (symbols : List Symbol) : List Symbol :=
  symbols.dropWhile (Option.any test)

def word? (letters : List Char) : Option Token :=
  if letters = ['n', 'u', 'l', 'l'] then some .null
  else if letters = ['t', 'r', 'u', 'e'] then some (.bool true)
  else if letters = ['f', 'a', 'l', 's', 'e'] then some (.bool false)
  else none

/-! ## Documents -/

/-- Space, tabulator, line feed and carriage return may stand between tokens. -/
def isSpacing (c : Char) : Bool := c == ' ' || c == '\t' || c == '\n' || c == '\r'

def punctuation? : Char → Option Token
  | '[' => some .openBracket
  | ']' => some .closeBracket
  | '\x7b' => some .openBrace
  | '\x7d' => some .closeBrace
  | ',' => some .comma
  | ':' => some .colon
  | _ => none

/-- The token that begins with the character `c`, and what follows it. -/
def token? (c : Char) (rest : List Symbol) : Option (Token × List Symbol) :=
  match punctuation? c with
  | some t => some (t, rest)
  | none =>
    if c = '"' then
      (stringParts? [] rest).map fun (parts, rest) => (.string (content? [] parts), rest)
    else if c = '-' || c.isDigit then
      (Number.read? (c :: run isNumeric rest)).map fun n =>
        (.number n.value?, afterRun isNumeric rest)
    else if c.isAlpha then
      (word? (c :: run Char.isAlpha rest)).map fun t => (t, afterRun Char.isAlpha rest)
    else none

/-- The tokens of a document, behind those found already. Each step takes at
least one symbol, so as many steps as there are symbols suffice. -/
def tokensWithin (found : List Token) : Nat → List Symbol → Option (List Token)
  | _, [] => some found.reverse
  | 0, _ :: _ => none
  | _ + 1, none :: _ => none
  | steps + 1, some c :: rest =>
    if isSpacing c then tokensWithin found steps rest
    else match token? c rest with
      | some (t, rest) => tokensWithin (t :: found) steps rest
      | none => none

/-- The tokens of a document. -/
def tokens? (symbols : List Symbol) : Option (List Token) :=
  tokensWithin [] symbols.length symbols

end Json

end Lookout

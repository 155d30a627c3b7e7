/-
Lookout.Registry.Entries — registries that are filled from JSON, and looked up
by name.

The name of an entry is found in the same way whatever the values are; what
value an entry describes is left to the kind of registry. A list of entries is
registered one by one up to the first that fails, and those before it stay.

Entries are registered in place (`insertJsonInPlace`, `insertAllInPlace`), or in
a new registry beside the old one (`insertJson`, `insertAll`).
-/
import Lookout.Curve.Table
import Lookout.InPlace
import Lookout.Json.Basic
import Lookout.Registry.Basic

namespace Lookout

/-- Why values cannot be registered or found. -/
inductive RegistryError where
  | unreadableFile
  | malformedJson
  | unknownName (name : List Char)
  | malformedTable (name : List Char) (cause : TableError)
deriving DecidableEq

def RegistryError.message : RegistryError → String
  | .unreadableFile => "the file cannot be read"
  | .malformedJson => "malformed JSON"
  | .unknownName name => s!"key '{String.ofList name}' not found"
  | .malformedTable name cause =>
    s!"invalid sample table for '{String.ofList name}': {cause.message}"

/-- The strings under some keys: members of an object, or else all the items of
an array, in the order of the keys. -/
def Json.strings? (keys : List (List Char)) : Json → Option (List (List Char))
  | .array items => if items.length = keys.length then items.mapM Json.string? else none
  | json => keys.mapM fun key => (json.member? key).bind Json.string?

namespace Registry

variable {α : Type}

/-- The value under a name. -/
def get (r : Registry α) (name : List Char) : Except RegistryError α :=
  match r.get? name with
  | some value => .ok value
  | none => .error (.unknownName name)

/-! ## Entries -/

/-- The name of an entry. -/
def nameOf (json : Json) : Except RegistryError (List Char) :=
  match json.strings? [['n', 'a', 'm', 'e']] with
  | some [name] => .ok name
  | _ => .error .malformedJson

variable (valueOf : Json → Except RegistryError α)

/-- The name and the value of an entry. -/
def bindingOf (json : Json) : Except RegistryError (List Char × α) := do
  let name ← nameOf json
  let value ← valueOf json
  return (name, value)

/-- Registers an entry. -/
def insertJson (r : Registry α) (json : Json) : Except RegistryError (Registry α) :=
  (bindingOf valueOf json).map fun (name, value) => r.insert name value

/-- Registers entries one by one up to the first that fails; gives the registry
that is reached, and the fault that ended it. -/
def insertAll (r : Registry α) : List Json → Registry α × Option RegistryError
  | [] => (r, none)
  | json :: rest =>
    match r.insertJson valueOf json with
    | .ok r => insertAll r rest
    | .error e => (r, some e)

/-- Reads the name and the value of an entry, one after the other, and binds them. -/
def insertJsonInPlace (json : Json) : InPlace RegistryError (Registry α) Unit := do
  let name ← MonadExcept.ofExcept (nameOf json)
  let value ← MonadExcept.ofExcept (valueOf json)
  modify fun r => r.insert name value

/-- Registers entries one by one. -/
def insertAllInPlace (entries : List Json) : InPlace RegistryError (Registry α) Unit :=
  entries.forM (insertJsonInPlace valueOf)

end Registry

end Lookout

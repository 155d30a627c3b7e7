/-
Lookout.Registry.Curves — registries of curves that are filled from JSON.

An entry is an object with the strings `name` and `samples`; whatever else it
holds is ignored. The shape of an entry is judged before its sample table.
-/
import Lookout.Curve.Domain
import Lookout.Registry.Entries

namespace Lookout

/-- The curves of one domain, under their names. -/
abbrev CurveRegistry (domain : Domain) := Registry (DomainCurve domain)

namespace CurveRegistry

variable {domain : Domain}

/-- The curve under a name. -/
def get (r : CurveRegistry domain) (name : List Char) : Except RegistryError (DomainCurve domain) :=
  Registry.get r name

/-! ## Entries -/

/-- The curve of an entry. -/
def curveOf (json : Json) : Except RegistryError (DomainCurve domain) :=
  match json.strings? [['n', 'a', 'm', 'e'], ['s', 'a', 'm', 'p', 'l', 'e', 's']] with
  | some [name, samples] => (DomainCurve.ofText samples).mapError (.malformedTable name)
  | _ => .error .malformedJson

/-- Registers the curve of an entry. -/
def insertJson (r : CurveRegistry domain) (json : Json) :
    Except RegistryError (CurveRegistry domain) :=
  Registry.insertJson curveOf r json

/-- Registers entries one by one up to the first that fails; gives the registry
that is reached, and the fault that ended it. -/
def insertAll (r : CurveRegistry domain) (entries : List Json) :
    CurveRegistry domain × Option RegistryError :=
  Registry.insertAll curveOf r entries

/-- The registry of some entries, if all of them are good. -/
def ofEntries (entries : List Json) : Except RegistryError (CurveRegistry domain) :=
  (Registry.insertAllInPlace curveOf entries).outcome Registry.empty

end CurveRegistry

end Lookout

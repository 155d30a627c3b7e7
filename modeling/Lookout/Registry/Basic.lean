/-
Lookout.Registry.Basic — values under names, where the last write wins.

A registry is a list of bindings in strictly ascending order of the names,
by code points. So a name has at most one binding, and the names come out
sorted whatever the order of the writes was.
-/

namespace Lookout

/-- Values under names. -/
structure Registry (α : Type) where
  bindings : List (List Char × α)

namespace Registry

variable {α : Type}

def empty : Registry α := ⟨[]⟩

/-- Binds a name in a list of bindings in ascending order. -/
def put (name : List Char) (value : α) : List (List Char × α) → List (List Char × α)
  | [] => [(name, value)]
  | (other, held) :: rest =>
    if name < other then (name, value) :: (other, held) :: rest
    else if name = other then (name, value) :: rest
    else (other, held) :: put name value rest

/-- Binds a name to a value, in place of the value that it had. -/
def insert (r : Registry α) (name : List Char) (value : α) : Registry α :=
  ⟨put name value r.bindings⟩

/-- The value under a name. -/
def get? (r : Registry α) (name : List Char) : Option α := r.bindings.lookup name

def contains (r : Registry α) (name : List Char) : Bool := (r.get? name).isSome

/-- The bound names in ascending order. -/
def names (r : Registry α) : List (List Char) := r.bindings.map Prod.fst

def size (r : Registry α) : Nat := r.bindings.length

def isEmpty (r : Registry α) : Bool := r.bindings.isEmpty

/-- Takes over all bindings of another registry, which win over its own. -/
def merge (r other : Registry α) : Registry α :=
  other.bindings.foldl (fun r binding => r.insert binding.1 binding.2) r

end Registry

end Lookout

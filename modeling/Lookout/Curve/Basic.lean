/-
Lookout.Curve.Basic — piecewise linear curves through samples, constant
beyond the first and the last of them.

Samples are kept in ascending order of their keys, and no two keys are equal:
a sample whose key is already present is ignored, so the first value wins.
The definitions hold for every kind of number, binary64 and exact ones alike.
-/
import Lookout.Curve.Sample

namespace Lookout

/-- A function of one variable, together with its slope. -/
class Curve (C : Type) (α : outParam Type) where
  value : C → α → α
  derivative : C → α → α

/-- A sampled function; `emptyValue` is its value while there is no sample. -/
structure SampledCurve (α : Type) where
  samples : List (Sample α)
  emptyValue : α
deriving DecidableEq

namespace SampledCurve

variable {α : Type}

/-! ## Samples -/

/-- The curve without samples. -/
def empty (emptyValue : α) : SampledCurve α := ⟨[], emptyValue⟩

def size (c : SampledCurve α) : Nat := c.samples.length

def isEmpty (c : SampledCurve α) : Bool := c.samples.isEmpty

def minKey? (c : SampledCurve α) : Option α := c.samples.head?.map Sample.key

def maxKey? (c : SampledCurve α) : Option α := c.samples.getLast?.map Sample.key

/-- Whether a sample has exactly this key; `-0` and `0` are one key, and a NaN is none. -/
def hasKey [BEq α] (c : SampledCurve α) (key : α) : Bool := c.samples.any (·.key == key)

/-- Puts a sample behind all those whose key precedes its own. -/
def place [KeyOrder α] (s : Sample α) (samples : List (Sample α)) : List (Sample α) :=
  samples.takeWhile (fun t => KeyOrder.precedes t.key s.key) ++
    s :: samples.dropWhile (fun t => KeyOrder.precedes t.key s.key)

/-- Adds a sample at its place, unless its key is present already. -/
def add [BEq α] [KeyOrder α] (c : SampledCurve α) (s : Sample α) : SampledCurve α :=
  if c.hasKey s.key then c else { c with samples := place s c.samples }

/-- Adds samples one after the other. -/
def addAll [BEq α] [KeyOrder α] (c : SampledCurve α) (samples : List (Sample α)) :
    SampledCurve α :=
  samples.foldl add c

/-- Curves are equal when their samples and their empty values are; a NaN equals nothing. -/
instance [BEq α] : BEq (SampledCurve α) :=
  ⟨fun c d => c.samples == d.samples && c.emptyValue == d.emptyValue⟩

/-! ## Values -/

/-- Where a query lies among the samples of a curve. -/
inductive Location (α : Type) where
  | beforeFirst (first : Sample α)
  | between (left right : Sample α)
  | afterLast (last : Sample α)

/-- Where a query above the key of `left` lies: before the first of the following
samples whose key is not below it, or behind all of them. -/
def locateAfter [LE α] [DecidableLE α] (query : α) (left : Sample α) :
    List (Sample α) → Location α
  | [] => .afterLast left
  | right :: rest =>
    if query ≤ right.key then .between left right else locateAfter query right rest

/-- Where a query lies among the samples `first :: rest`. -/
def locate [LE α] [DecidableLE α] (query : α) (first : Sample α) (rest : List (Sample α)) :
    Location α :=
  if query ≤ first.key then .beforeFirst first else locateAfter query first rest

/-- The value of the curve: that of the straight line between neighbouring
samples, the first value before the first sample, the last behind the last. -/
def evaluate [Add α] [Sub α] [Mul α] [Div α] [LE α] [DecidableLE α]
    (c : SampledCurve α) (query : α) : α :=
  match c.samples with
  | [] => c.emptyValue
  | [only] => only.value
  | first :: rest =>
    match locate query first rest with
    | .beforeFirst s => s.value
    | .between left right => left.value + Sample.slope left right * (query - left.key)
    | .afterLast s => s.value

/-- The slope of the curve to the left of a query. -/
def derivative [Zero α] [Sub α] [Div α] [LE α] [DecidableLE α]
    (c : SampledCurve α) (query : α) : α :=
  match c.samples with
  | [] => 0
  | [_] => 0
  | first :: rest =>
    match locate query first rest with
    | .beforeFirst _ => 0
    | .between left right => Sample.slope left right
    | .afterLast _ => 0

instance [Zero α] [Add α] [Sub α] [Mul α] [Div α] [LE α] [DecidableLE α] :
    Curve (SampledCurve α) α where
  value := evaluate
  derivative := derivative

end SampledCurve

end Lookout

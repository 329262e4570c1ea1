/-
The settings of a data directory.

Settings are read from a TOML document with two fields, both of which may be missing:
the owner to work for, and what discovery is set to.  No other field may stand beside
them, while fields of discovery that are not known are passed over.  Discovery may
also be written as an array of its values.  A threshold has to be at least zero and
below one.
-/
import Ideas.Discovery
import Ideas.Error
import Ideas.Toml.Reader

namespace Ideas

/-- The settings of a data directory. -/
structure Settings where
  /-- The owner to work for. -/
  owner : Option String := none
  discovery : DiscoverySettings := {}

namespace Settings

open Toml

/-- The value of a field as a double. -/
def float? : Value → Option Float
  | .float x => some x
  | .integer n =>
    let x := Decimal.nearestFloat n.natAbs 0
    some (if n < 0 then -x else x)
  | _ => none

/-- The value of a field as a count. -/
def count? : Value → Option Nat
  | .integer n => if 0 ≤ n then some n.toNat else none
  | _ => none

/-- The value of a field that may be missing. -/
def orUsual {α : Type} (usual : α) (read : Value → Option α) : Option Value → Option α
  | none => some usual
  | some v => read v

/-- Discovery settings from the values of their fields. -/
def discoveryOf (threshold limit : Option Value) : Option DiscoverySettings := do
  let usual : DiscoverySettings := {}
  return {
    threshold := ← orUsual usual.threshold float? threshold
    limit := ← orUsual usual.limit count? limit }

/-- Read what discovery is set to; a date means the usual settings. -/
def discovery? : Value → Option DiscoverySettings
  | .table _ fields => discoveryOf (fields.lookup "threshold") (fields.lookup "limit")
  | .array items => discoveryOf items[0]? items[1]?
  | .datetime => some {}
  | _ => none

/-- Read the owner. -/
def owner? : Value → Option String
  | .string s => some s
  | _ => none

/-- The names of the fields that settings may have. -/
def fieldNames : List String :=
  ["owner", "discovery"]

/-- Settings from the fields of a document. -/
def ofFields? (fields : Fields) : Option Settings := do
  if fields.any fun field => field.1 ∉ fieldNames then none
  return {
    owner := ← orUsual none (fun v => (owner? v).map some) (fields.lookup "owner")
    discovery := ← orUsual {} discovery? (fields.lookup "discovery") }

/-- Whether a threshold is at least zero and below one. -/
def admits (threshold : Float) : Bool :=
  0 ≤ threshold && threshold < 1

/-- Read settings. -/
def read (text : String) : Except StoreError Settings :=
  match (Toml.read? text).bind ofFields? with
  | none => .error .config
  | some s =>
    if admits s.discovery.threshold then .ok s
    else .error (.invalidData (.thresholdOutOfRange s.discovery.threshold))

end Settings

end Ideas

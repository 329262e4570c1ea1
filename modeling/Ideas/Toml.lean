/-
TOML documents.

A document is a table of values.  A table is known by how it came to be: from a header
of its own, from the way to another header, from a dotted key, or written out in
braces.  That decides what may still be added to it: a header may take over a table
that only lies on the way to another one, and a dotted key may add only to tables that
no header and no braces have defined.  A header in double brackets adds one more table
to a list of tables, and later headers and keys that go through the list mean the last
one.
-/

namespace Ideas.Toml

/-- How a table came to be. -/
inductive Origin where
  /-- From a header of its own. -/
  | header
  /-- From the way to another header. -/
  | passage
  /-- From a dotted key. -/
  | dotted
  /-- Written out in braces. -/
  | braces
deriving DecidableEq, Repr

/-- A value. -/
inductive Value where
  | string (s : String)
  | integer (n : Int)
  | float (x : Float)
  | boolean (b : Bool)
  /-- A date, a time, or both. -/
  | datetime
  | array (items : List Value)
  | table (origin : Origin) (fields : List (String × Value))
  /-- The tables that headers in double brackets have defined, the last one first. -/
  | tables (latest : List (String × Value)) (earlier : List (List (String × Value)))

/-- The fields of a table. -/
abbrev Fields := List (String × Value)

namespace Fields

/-- Put a value in the place of the one under a key, or at the end where there is none. -/
def put (key : String) (v : Value) : Fields → Fields
  | [] => [(key, v)]
  | (k, w) :: rest => if k = key then (k, v) :: rest else (k, w) :: put key v rest

/-- Change the table that a path of keys leads to, making tables on the way where there are none;
`dotted` tells a dotted key from a header.  `change` is given the origin of the table. -/
def within (dotted : Bool) (change : Origin → Fields → Option Fields) :
    List String → Origin → Fields → Option Fields
  | [], origin, fields => change origin fields
  | key :: path, _, fields =>
    match fields.lookup key with
    | none =>
      let origin := if dotted then Origin.dotted else .passage
      (within dotted change path origin []).map fun inner => put key (.table origin inner) fields
    | some (.table origin inner) =>
      if origin = .braces ∨ (dotted = true ∧ origin = .header) then none
      else
        (within dotted change path origin inner).map fun inner =>
          put key (.table origin inner) fields
    | some (.tables latest earlier) =>
      (within dotted change path .header latest).map fun latest =>
        put key (.tables latest earlier) fields
    | some _ => none

/-- Set a key that is not there yet. -/
def setNew (key : String) (v : Value) (fields : Fields) : Option Fields :=
  if (fields.lookup key).isSome then none else some (put key v fields)

/-- Set what a dotted key names, from a table of the given origin on: `path` leads to the table
that has the key.  The last table on a path of several keys has to come from dotted keys. -/
def assign (origin : Origin) (path : List String) (key : String) (v : Value) (fields : Fields) :
    Option Fields :=
  let change := fun (last : Origin) (inner : Fields) =>
    if path ≠ [] ∧ last ≠ .dotted then none else setNew key v inner
  within true change path origin fields

/-- Open the table of a header. -/
def openTable (path : List String) (key : String) (fields : Fields) : Option Fields :=
  let change := fun (_ : Origin) (inner : Fields) =>
    match inner.lookup key with
    | none => some (put key (.table .header []) inner)
    | some (.table .passage fields) => some (put key (.table .header fields) inner)
    | some _ => none
  within false change path .header fields

/-- Open one more table of a header in double brackets. -/
def appendTable (path : List String) (key : String) (fields : Fields) : Option Fields :=
  let change := fun (_ : Origin) (inner : Fields) =>
    match inner.lookup key with
    | none => some (put key (.tables [] []) inner)
    | some (.tables latest earlier) => some (put key (.tables [] (latest :: earlier)) inner)
    | some _ => none
  within false change path .header fields

/-- Change the table that the last header opened: the end of the path of its keys. -/
def inOpened (change : Fields → Option Fields) : List String → Fields → Option Fields
  | [], fields => change fields
  | key :: path, fields =>
    match fields.lookup key with
    | some (.table origin inner) =>
      (inOpened change path inner).map fun inner => put key (.table origin inner) fields
    | some (.tables latest earlier) =>
      (inOpened change path latest).map fun latest => put key (.tables latest earlier) fields
    | _ => none

end Fields

end Ideas.Toml

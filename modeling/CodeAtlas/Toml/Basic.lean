namespace CodeAtlas

/-- How a table came about. -/
inductive Toml.Origin where
  /-- By a header, or it is the whole document. -/
  | header
  /-- By a header of a table in it. -/
  | implied
  /-- By a dotted key. -/
  | dotted
  /-- As a value in braces. -/
  | braces
  deriving Repr, DecidableEq

inductive Toml where
  | string (text : String)
  | integer (value : Int)
  | float
  | boolean (value : Bool)
  | moment
  | array (items : List Toml)
  | table (origin : Toml.Origin) (members : List (String × Toml))
  /-- Tables that are defined by several headers with one name; the last one comes first. -/
  | tables (elements : List Toml)
  deriving Repr, Inhabited

namespace Toml

abbrev Members := List (String × Toml)

/-- Replaces the value of a key, or adds it at the end. -/
def put (members : Members) (key : String) (value : Toml) : Members :=
  if members.any (·.1 == key) then
    members.map fun member => if member.1 == key then (key, value) else member
  else members ++ [(key, value)]

/-- Changes a table. -/
abbrev Change := Origin → Members → Option (Origin × Members)

/-- Changes the table that a value is; tables in braces stay as they are, and those of a header are
not reached by dotted keys. -/
def changeTable (dotted : Bool) (change : Change) : Toml → Option Toml
  | table origin members =>
    if origin = .braces ∨ (dotted ∧ origin = .header) then none
    else (change origin members).map fun (origin, members) => table origin members
  | _ => none

/-- Changes the table at a path; tables on the way are made where they are missing. -/
def changeAt (dotted : Bool) : List String → Change → Change
  | [], change, origin, members => change origin members
  | key :: path, change, origin, members =>
    let inner := changeAt dotted path change
    let value := match members.lookup key with
      | none => (inner (if dotted then .dotted else .implied) []).map fun (o, m) => table o m
      | some (tables (last :: others)) =>
        (changeTable false inner last).map fun last => tables (last :: others)
      | some value => changeTable dotted inner value
    value.map fun value => (origin, put members key value)

/-- Puts a value under a key that is still free. A table that is reached by a dotted key must have
come about by one, and no other may. -/
def insertNew (byDottedKey : Bool) (key : String) (value : Toml) : Change := fun origin members =>
  if (origin == .dotted) == byDottedKey && !members.any (·.1 == key) then
    some (origin, members ++ [(key, value)])
  else none

/-- Defines the table of a header. -/
def openTable (key : String) : Change := fun origin members =>
  match members.lookup key with
  | none => some (origin, members ++ [(key, table .header [])])
  | some (table .implied inside) => some (origin, put members key (table .header inside))
  | some _ => none

/-- Defines one more of the tables of a header. -/
def openElement (key : String) : Change := fun origin members =>
  match members.lookup key with
  | none => some (origin, members ++ [(key, tables [table .header []])])
  | some (tables elements) => some (origin, put members key (tables (table .header [] :: elements)))
  | some _ => none

/-- Puts a value at a dotted key into a table. -/
def insertAt (path : List String) (value : Toml) : Change :=
  match path.getLast? with
  | none => fun _ _ => none
  | some key => changeAt true path.dropLast (insertNew (1 < path.length) key value)

end Toml

end CodeAtlas

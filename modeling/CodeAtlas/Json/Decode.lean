import CodeAtlas.Json.Value

namespace CodeAtlas.Json

/-- Reads a value of a type from a document that may nest as deep as the first argument says. -/
abbrev Decoder (α : Type) := Nat → Document → Option α

namespace Decoder

def json : Decoder Json := fun depth document => document.toJson? depth

def string : Decoder String
  | _, .string text => text
  | _, _ => none

def bool : Decoder Bool
  | _, .bool value => some value
  | _, _ => none

/-- A natural number of at most 64 bits. -/
def natural : Decoder Nat
  | _, .number literal =>
    match literal.number? with
    | some (.integer value) => if 0 ≤ value then some value.toNat else none
    | _ => none
  | _, _ => none

/-- The nearest number of 32 bits, of two equally near ones the even one. -/
def narrow (x : Float) : Float32 :=
  match x.toModel.unpack with
  | .finite sign mantissa exponent _ => .ofModel (.pack (.round .binary32 sign mantissa exponent))
  | special => .ofModel (.pack special)

/-- A number rounded to 32 bits. -/
def single : Decoder Float32
  | _, .number literal =>
    match literal.number? with
    | some (.integer value) =>
      some (if 0 ≤ value then value.toNat.toUInt64.toFloat32 else -value.natAbs.toUInt64.toFloat32)
    | some (.real bits) => some (narrow (Float.ofBits bits))
    | some (.single bits) => some (Float32.ofBits bits)
    | none => none
  | _, _ => none

/-- A value that may be `null`. -/
def optional {α : Type} (decoder : Decoder α) : Decoder (Option α)
  | _, .null => some none
  | depth, document => (decoder depth document).map some

def list {α : Type} (decoder : Decoder α) : Decoder (List α)
  | depth + 1, .array items => items.mapM (decoder depth)
  | _, _ => none

/-- Members by key; of several with one key the last counts. -/
def dictionary {α : Type} (decoder : Decoder α) : Decoder (List (String × α))
  | depth + 1, .object members => do
    let found ← members.mapM fun (key, value) => do return (← key, ← decoder depth value)
    return sortMembers found
  | _, _ => none

/-- One of several words; also an object with the word as its only key and `null` as value. -/
def word {α : Type} (meaning : String → Option α) : Decoder α
  | _, .string text => text.bind meaning
  | _ + 1, .object [(key, .null)] => key.bind meaning
  | _, _ => none

/-- What a record holds at each of its fields: `none` for one that is left out. Two values for one
field are refused, and so are more array items than fields. -/
def fields? (names : List String) : Document → Option (List (Option Document))
  | .array items =>
    if items.length ≤ names.length then
      some ((List.range names.length).map fun i => items[i]?)
    else none
  | .object members => do
    let keyed ← members.mapM fun (key, value) => do return (← key, value)
    names.mapM fun name =>
      match keyed.filter (·.1 == name) with
      | [] => some none
      | [(_, value)] => some (some value)
      | _ => none
  | _ => none

/-- Reads a record whose fields `build` decodes one level deeper. -/
def record {α : Type} (names : List String) (build : Nat → List (Option Document) → Option α) :
    Decoder α
  | depth + 1, document => do build depth (← fields? names document)
  | 0, _ => none

/-- A field that must be there. -/
def required {α : Type} (decoder : Decoder α) (depth : Nat) (field : Option Document) : Option α := do
  decoder depth (← field)

/-- A field with a value for when it is left out. -/
def defaulted {α : Type} (value : α) (decoder : Decoder α) (depth : Nat) :
    Option Document → Option α
  | none => some value
  | some document => decoder depth document

end Decoder

/-- Reads a text that holds one value and nothing else. -/
def decode? {α : Type} (decoder : Decoder α) (text : String) : Option α := do
  decoder maxDepth (← Document.parse? text)

mutual

/-- The document with only the last of several members with one key, at every level. -/
def Document.settle : Document → Document
  | .array items => .array (settleItems items)
  | .object members => .object (settleMembers members)
  | other => other

def Document.settleItems : List Document → List Document
  | [] => []
  | item :: rest => item.settle :: settleItems rest

def Document.settleMembers : List (Option String × Document) → List (Option String × Document)
  | [] => []
  | (key, value) :: rest =>
    let settled := settleMembers rest
    if settled.any (·.1 == key) then settled else (key, value.settle) :: settled

end

end CodeAtlas.Json

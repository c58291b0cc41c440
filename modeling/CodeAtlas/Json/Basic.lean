namespace CodeAtlas

/-- A number: an integer of at most 64 bits, or the bits of a floating-point number of 64 or of 32
bits. What is read is never of 32 bits. -/
inductive Json.Number where
  | integer (value : Int)
  | real (bits : UInt64)
  | single (bits : UInt32)
  deriving DecidableEq, Repr

inductive Json where
  | null
  | bool (value : Bool)
  | number (value : Json.Number)
  | string (value : String)
  | array (items : List Json)
  | object (members : List (String × Json))
  deriving Repr, Inhabited

namespace Json

def ofNat (n : Nat) : Json := number (.integer n)

def ofFloat32 (x : Float32) : Json := number (.single x.toBits)

/-- Puts a member in its place by key; a member with that key is replaced. -/
def insertMember {α : Type} (key : String) (value : α) : List (String × α) → List (String × α)
  | [] => [(key, value)]
  | (other, kept) :: rest =>
    if key < other then (key, value) :: (other, kept) :: rest
    else if key = other then (key, value) :: rest
    else (other, kept) :: insertMember key value rest

/-- Members by key; of several with one key the last counts. -/
def sortMembers {α : Type} (members : List (String × α)) : List (String × α) :=
  members.foldl (fun sorted member => insertMember member.1 member.2 sorted) []

/-- The value of the member with the key. -/
def member? (key : String) : Json → Option Json
  | object members => members.lookup key
  | _ => none

end Json

end CodeAtlas

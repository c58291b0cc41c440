import CodeAtlas.Json.Document

namespace CodeAtlas.Json

namespace Literal

def digitValue (c : Char) : Nat := c.toNat - '0'.toNat

/-- The largest number of 64 bits. -/
def maxSignificand : Nat := UInt64.size - 1

/-- Appends digits to a number while it fits in 64 bits; yields also how many digits did not. -/
def appendDigits (significand : Nat) : List Char → Nat × Nat
  | [] => (significand, 0)
  | c :: rest =>
    let next := significand * 10 + digitValue c
    if next ≤ maxSignificand then appendDigits next rest else (significand, rest.length + 1)

/-- Divides a double by a power of ten whose exponent may be larger than that of any double. -/
def shrink (x : Float) (power : Nat) : Float :=
  if power ≤ 308 then x / Float.ofScientific 1 false power
  else if x == 0 then x
  else shrink (x / Float.ofScientific 1 false 308) (power - 308)
  termination_by power

/-- A significand times a power of ten; none if that is too large. -/
def scale? (significand : Nat) (power : Int) : Option Float :=
  let x := significand.toUInt64.toFloat
  if power < 0 then some (shrink x power.natAbs)
  else if power ≤ 308 then
    let scaled := x * Float.ofScientific 1 false power.toNat
    if scaled.isInf then none else some scaled
  else if significand = 0 then some x
  else none

def clamp (n : Int) : Int := max Int32.minValue.toInt (min n Int32.maxValue.toInt)

/-- The magnitude of a number with fraction, exponent or too many digits. -/
def magnitude? (literal : Literal) : Option Float :=
  let (whole, dropped) := appendDigits 0 literal.whole
  let (significand, unread) := appendDigits whole literal.fraction
  let power : Int := dropped - (literal.fraction.length - unread : Nat)
  match literal.exponent with
  | none => scale? significand power
  | some (negative, digits) =>
    let exponent := digits.foldl (fun n c => n * 10 + digitValue c) 0
    if Int32.maxValue.toInt < exponent then
      if significand ≠ 0 ∧ !negative then none else some 0
    else scale? significand (clamp (if negative then power - exponent else power + exponent))

/-- The number that is written; none if it is too large. -/
def number? (literal : Literal) : Option Number :=
  let (whole, dropped) := appendDigits 0 literal.whole
  if literal.fraction.isEmpty && literal.exponent.isNone && dropped == 0 then
    if !literal.negative then some (.integer whole)
    else if whole = 0 ∨ UInt64.size < 2 * whole then some (.real (-whole.toUInt64.toFloat).toBits)
    else some (.integer (-whole))
  else (literal.magnitude?).map fun x => .real (if literal.negative then -x else x).toBits

end Literal

/-- Values nest at most this deep. -/
def maxDepth : Nat := 127

namespace Document

mutual

/-- The value that is written, if all its numbers and strings stand for something and it nests at
most `depth` levels deep. -/
def toJson? : Nat → Document → Option Json
  | _, null => some .null
  | _, bool value => some (.bool value)
  | _, number literal => literal.number?.map .number
  | _, string text => text.map .string
  | 0, array _ => none
  | 0, object _ => none
  | depth + 1, array items => (itemsToJson? depth items).map .array
  | depth + 1, object members => (membersToJson? depth members).map fun found => .object (sortMembers found)

def itemsToJson? (depth : Nat) : List Document → Option (List Json)
  | [] => some []
  | item :: rest => do return (← toJson? depth item) :: (← itemsToJson? depth rest)

def membersToJson? (depth : Nat) : List (Option String × Document) → Option (List (String × Json))
  | [] => some []
  | (key, value) :: rest => do
    let key ← key
    return (key, ← toJson? depth value) :: (← membersToJson? depth rest)

end

end Document

/-- Reads a text that holds one value. -/
def parse? (text : String) : Option Json := do
  (← Document.parse? text).toJson? maxDepth

end CodeAtlas.Json

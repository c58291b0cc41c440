namespace CodeAtlas.Decimal

/-- The layout of a binary interchange format: widths of its fraction and its exponent. -/
structure Layout where
  fraction : Nat
  exponent : Nat

def Layout.single : Layout := ⟨23, 8⟩

def Layout.double : Layout := ⟨52, 11⟩

/-- A number in binary: `mantissa * 2 ^ exponent`. At a `boundary` the next smaller number is only
half as far away as the next larger one. -/
structure Binary where
  mantissa : Nat
  exponent : Int
  boundary : Bool

inductive Class where
  | notANumber
  | infinite (negative : Bool)
  | finite (negative : Bool) (magnitude : Binary)

namespace Layout

/-- What the bits of a number say. -/
def classify (layout : Layout) (bits : Nat) : Class :=
  let fraction := bits % (1 <<< layout.fraction)
  let exponent := (bits >>> layout.fraction) % (1 <<< layout.exponent)
  let negative := (bits >>> (layout.fraction + layout.exponent)) % 2 = 1
  let lowest : Int := 2 - (1 <<< (layout.exponent - 1) : Nat) - layout.fraction
  if exponent + 1 = 1 <<< layout.exponent then
    if fraction = 0 then .infinite negative else .notANumber
  else if exponent = 0 then .finite negative ⟨fraction, lowest, false⟩
  else .finite negative
    ⟨(1 <<< layout.fraction) + fraction, lowest + exponent - 1, fraction = 0 ∧ 1 < exponent⟩

end Layout

def tenTo (power : Nat) : Nat := Nat.pow 10 power

/-- `coefficient * 10 ^ exponent`. -/
structure Scaled where
  coefficient : Nat
  exponent : Int
  deriving Repr, DecidableEq

namespace Binary

/-- `quarters * 2 ^ (exponent - 2)` and `10 ^ place` over a common denominator: the numerators. -/
def compare (b : Binary) (quarters : Nat) (coefficient : Nat) (place : Int) : Ordering :=
  let power := b.exponent - 2
  Ord.compare (quarters * tenTo (-place).toNat <<< power.toNat)
    (coefficient * tenTo place.toNat <<< (-power).toNat)

/-- Whether `coefficient * 10 ^ place` rounds to the number: it lies between the middles to both
neighbours, which count if the mantissa is even. -/
def roundsFrom (b : Binary) (coefficient : Nat) (place : Int) : Bool :=
  let low := b.compare (4 * b.mantissa - if b.boundary then 1 else 2) coefficient place
  let high := b.compare (4 * b.mantissa + 2) coefficient place
  if b.mantissa % 2 = 0 then low != .gt && high != .lt else low == .lt && high == .gt

/-- The largest multiple of `10 ^ place` that is not above the number. -/
def floorAt (b : Binary) (place : Int) : Nat :=
  (b.mantissa * tenTo (-place).toNat <<< b.exponent.toNat) /
    (tenTo place.toNat <<< (-b.exponent).toNat)

/-- The place of the leading decimal digit of a number that is not 0. -/
def leadingPlace (b : Binary) : Int :=
  let guess := (b.mantissa.log2 + b.exponent) * 30103 / 100000
  if b.floorAt (guess + 1) ≠ 0 then guess + 1
  else if b.floorAt guess ≠ 0 then guess
  else guess - 1

/-- Whether the number is nearer to `(low + 1) * 10 ^ place` than to `low * 10 ^ place`; halfway
between, whether `low` is odd. -/
def nearerAbove (b : Binary) (low : Nat) (place : Int) : Bool :=
  let power := b.exponent
  let twice := 2 * b.mantissa * tenTo (-place).toNat <<< power.toNat
  let middle := (2 * low + 1) * tenTo place.toNat <<< (-power).toNat
  match Ord.compare twice middle with
  | .lt => false
  | .gt => true
  | .eq => low % 2 = 1

/-- The decimal among the two multiples of `10 ^ place` around the number that rounds to it. -/
def onGrid? (b : Binary) (place : Int) : Option Scaled :=
  let low := b.floorAt place
  let below := b.roundsFrom low place
  let above := b.roundsFrom (low + 1) place
  if below && (!above || !b.nearerAbove low place) then some ⟨low, place⟩
  else if above then some ⟨low + 1, place⟩
  else none

/-- Searches coarser grids before finer ones. -/
def search (b : Binary) (leading : Int) : Nat → Nat → Scaled
  | 0, digits => ⟨b.floorAt (leading - digits), leading - digits⟩
  | more + 1, digits =>
    match b.onGrid? (leading - digits) with
    | some found => found
    | none => search b leading more (digits + 1)

/-- Removes trailing zeros. -/
def Scaled.reduce (fuel : Nat) (s : Scaled) : Scaled :=
  match fuel with
  | 0 => s
  | fuel + 1 =>
    if s.coefficient ≠ 0 ∧ s.coefficient % 10 = 0 then
      Scaled.reduce fuel ⟨s.coefficient / 10, s.exponent + 1⟩
    else s

/-- The shortest decimal that rounds to the number. -/
def shortest (b : Binary) : Scaled :=
  if b.mantissa = 0 then ⟨0, 0⟩ else Scaled.reduce 20 (b.search b.leadingPlace 17 0)

/-- The number rounded to `places` decimal places, a half to the even neighbour. -/
def fixed (b : Binary) (places : Nat) : Scaled :=
  let low := b.floorAt (-places)
  ⟨if b.nearerAbove low (-places) then low + 1 else low, -places⟩

end Binary

end CodeAtlas.Decimal

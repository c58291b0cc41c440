namespace CodeAtlas

abbrev Embedding := List Float32

/-- What arithmetic leaves to the machine: the bits of a result that is no number. They have either sign,
and may be others for each result of a list. -/
class Machine where
  nan : Nat → UInt32
  isNaN_nan (place : Nat) : (Float32.ofBits (nan place)).isNaN = true

/-- A machine with the same negative bits for all such results. -/
instance : Machine where
  nan _ := 0xFFC00000
  isNaN_nan _ := by decide +kernel

namespace Embedding

/-- The sum of the components from the first on. The sum of nothing is `-0.0`. -/
def sum (xs : List Float32) : Float32 := xs.foldl (· + ·) (-0.0)

def dot (a b : Embedding) : Float32 := sum (List.zipWith (· * ·) a b)

def norm (a : Embedding) : Float32 := (dot a a).sqrt

/-- What keeps a vector of zeros from dividing by zero. -/
def epsilon : Float32 := 1e-8

/-- The cosine of the angle between two vectors; 0 if they have different lengths. -/
def cosine (a b : Embedding) : Float32 :=
  if a.length ≠ b.length then 0 else dot a b / (norm a * norm b + epsilon)

/-- The vector with length 1, unless it has length 0. -/
def normalize (a : Embedding) : Embedding :=
  let n := norm a
  if n == 0 then a else a.map (· / n)

/-- The place of bits in the total order of numbers. From zero outwards those of one sign count up, so
that `-0.0` stands just below `0.0`, and what is no number beyond all numbers of its sign. -/
def rank (bits : UInt32) : Int :=
  if bits.toNat ≤ Int32.maxValue.toInt then bits.toNat else Int32.maxValue.toInt - bits.toNat

variable [Machine]

/-- The bits of the result at a place of a list of results. -/
def bitsAt (place : Nat) (x : Float32) : UInt32 := if x.isNaN then Machine.nan place else x.toBits

/-- Items from the highest score to the lowest; those with equal scores keep their order. -/
def sortByScore {α : Type} (score : α → Float32) (items : List α) : List α :=
  let rankAt (item : α × Nat) : Int := rank (bitsAt item.2 (score item.1))
  (items.zipIdx.mergeSort fun first second => rankAt second ≤ rankAt first).map (·.1)

end Embedding

end CodeAtlas

namespace CodeAtlas.Digest

/-- The hash of no bytes. -/
def fnvOffset : UInt64 := 0xcbf29ce484222325

def fnvPrime : UInt64 := 0x100000001b3

def fnvStep (hash : UInt64) (byte : UInt8) : UInt64 := (hash ^^^ byte.toUInt64) * fnvPrime

/-- The 64-bit hash FNV-1a. -/
def fnv1a (bytes : List UInt8) : UInt64 := bytes.foldl fnvStep fnvOffset

/-- The step from one state of a stream to the next. -/
def streamStep : UInt64 := 0x9E3779B97F4A7C15

/-- Scrambles a state. -/
def scramble (state : UInt64) : UInt64 :=
  let x := (state ^^^ (state >>> 30)) * 0xBF58476D1CE4E5B9
  let y := (x ^^^ (x >>> 27)) * 0x94D049BB133111EB
  y ^^^ (y >>> 31)

/-- The word of the stream SplitMix64 that comes after `i` others. -/
def draw (seed : UInt64) (i : Nat) : UInt64 := scramble (seed + streamStep * (i + 1).toUInt64)

end CodeAtlas.Digest

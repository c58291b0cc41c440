import CodeAtlas.Digest.Mixing
import CodeAtlas.Embedding.Basic

namespace CodeAtlas.Embedding

def defaultDimension : Nat := 384

/-- The seed of the vector of a text. -/
def seed (text : String) (dimension : Nat) : UInt64 :=
  Digest.fnv1a text.toUTF8.toList ^^^ (dimension.toUInt64 * Digest.streamStep)

/-- A number from -1 to 1 out of the 23 highest bits of a word. -/
def component (word : UInt64) : Float32 :=
  let mantissa := (word >>> 32).toUInt32 >>> 9
  let unit := Float32.ofBits (0x3f800000 ||| mantissa) - 1.0
  unit * 2.0 - 1.0

/-- The vector of a text, of length 1. -/
def hash (dimension : Nat) (text : String) : Embedding :=
  let seed := seed text dimension
  normalize ((List.range dimension).map fun i => component (Digest.draw seed i))

end CodeAtlas.Embedding

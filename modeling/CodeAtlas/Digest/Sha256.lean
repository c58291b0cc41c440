namespace CodeAtlas.Digest

/-- Eight words of 32 bits. -/
structure Words where
  a : UInt32
  b : UInt32
  c : UInt32
  d : UInt32
  e : UInt32
  f : UInt32
  g : UInt32
  h : UInt32

namespace Words

/-- The square roots of the first eight primes: the first bits of their fractions. -/
def initial : Words :=
  ⟨0x6a09e667, 0xbb67ae85, 0x3c6ef372, 0xa54ff53a, 0x510e527f, 0x9b05688c, 0x1f83d9ab, 0x5be0cd19⟩

def add (x y : Words) : Words :=
  ⟨x.a + y.a, x.b + y.b, x.c + y.c, x.d + y.d, x.e + y.e, x.f + y.f, x.g + y.g, x.h + y.h⟩

def toList (x : Words) : List UInt32 := [x.a, x.b, x.c, x.d, x.e, x.f, x.g, x.h]

end Words

/-- The cube roots of the first 64 primes: the first bits of their fractions. -/
def roundConstants : List UInt32 :=
  [0x428a2f98, 0x71374491, 0xb5c0fbcf, 0xe9b5dba5, 0x3956c25b, 0x59f111f1, 0x923f82a4, 0xab1c5ed5,
    0xd807aa98, 0x12835b01, 0x243185be, 0x550c7dc3, 0x72be5d74, 0x80deb1fe, 0x9bdc06a7, 0xc19bf174,
    0xe49b69c1, 0xefbe4786, 0x0fc19dc6, 0x240ca1cc, 0x2de92c6f, 0x4a7484aa, 0x5cb0a9dc, 0x76f988da,
    0x983e5152, 0xa831c66d, 0xb00327c8, 0xbf597fc7, 0xc6e00bf3, 0xd5a79147, 0x06ca6351, 0x14292967,
    0x27b70a85, 0x2e1b2138, 0x4d2c6dfc, 0x53380d13, 0x650a7354, 0x766a0abb, 0x81c2c92e, 0x92722c85,
    0xa2bfe8a1, 0xa81a664b, 0xc24b8b70, 0xc76c51a3, 0xd192e819, 0xd6990624, 0xf40e3585, 0x106aa070,
    0x19a4c116, 0x1e376c08, 0x2748774c, 0x34b0bcb5, 0x391c0cb3, 0x4ed8aa4a, 0x5b9cca4f, 0x682e6ff3,
    0x748f82ee, 0x78a5636f, 0x84c87814, 0x8cc70208, 0x90befffa, 0xa4506ceb, 0xbef9a3f7, 0xc67178f2]

def rotate (x : UInt32) (n : UInt32) : UInt32 := (x >>> n) ||| (x <<< (32 - n))

/-- The word of a byte sequence at an index, high byte first. -/
def wordAt (bytes : ByteArray) (i : Nat) : UInt32 :=
  let byte (j : Nat) : UInt32 := if h : i + j < bytes.size then bytes[i + j].toUInt32 else 0
  (byte 0 <<< 24) ||| (byte 1 <<< 16) ||| (byte 2 <<< 8) ||| byte 3

/-- One more word of a schedule. -/
def extend (words : Array UInt32) : Array UInt32 :=
  let back (n : Nat) : UInt32 := words.getD (words.size - n) 0
  let x := back 15
  let y := back 2
  let s := rotate x 7 ^^^ rotate x 18 ^^^ (x >>> 3)
  let t := rotate y 17 ^^^ rotate y 19 ^^^ (y >>> 10)
  words.push (back 16 + s + back 7 + t)

/-- The 64 words of a block that starts at an index: its own 16 and those that follow from them. -/
def schedule (bytes : ByteArray) (start : Nat) : Array UInt32 :=
  let own := ((List.range 16).map fun i => wordAt bytes (start + 4 * i)).toArray
  Nat.repeat extend 48 own

def round (x : Words) (input : UInt32) : Words :=
  let s := rotate x.e 6 ^^^ rotate x.e 11 ^^^ rotate x.e 25
  let choice := (x.e &&& x.f) ^^^ ((~~~x.e) &&& x.g)
  let t := x.h + s + choice + input
  let u := rotate x.a 2 ^^^ rotate x.a 13 ^^^ rotate x.a 22
  let majority := (x.a &&& x.b) ^^^ (x.a &&& x.c) ^^^ (x.b &&& x.c)
  ⟨t + u + majority, x.a, x.b, x.c, x.d + t, x.e, x.f, x.g⟩

/-- Takes a block into a digest. -/
def compress (bytes : ByteArray) (digest : Words) (start : Nat) : Words :=
  let inputs := List.zipWith (· + ·) roundConstants (schedule bytes start).toList
  digest.add (inputs.foldl round digest)

/-- The bytes with a one bit, zeros and the number of bits after them, in whole blocks of 64. -/
def pad (bytes : ByteArray) : ByteArray :=
  let zeros := (119 - bytes.size % 64) % 64
  let bits := bytes.size * 8
  let marked := Nat.repeat (·.push 0) zeros (bytes.push 0x80)
  (List.range 8).foldl (fun found i => found.push (bits >>> (8 * (7 - i))).toUInt8) marked

def sha256 (bytes : ByteArray) : List UInt32 :=
  let padded := pad bytes
  ((List.range (padded.size / 64)).foldl (fun digest i => compress padded digest (64 * i))
    Words.initial).toList

/-- A word in eight hexadecimal digits. -/
def hexOfWord (word : UInt32) : List Char :=
  (List.range 8).map fun i => Nat.digitChar ((word.toNat >>> (4 * (7 - i))) % 16)

/-- The digest of a text in hexadecimal digits. -/
def sha256Hex (text : String) : String :=
  String.ofList ((sha256 text.toUTF8).flatMap hexOfWord)

end CodeAtlas.Digest

import CodeAtlas.Cache.Snapshot
import CodeAtlas.Digest.Sha256
import CodeAtlas.Embedding.Basic

namespace CodeAtlas

abbrev EmbeddingCache := Cache Embedding

namespace EmbeddingCache

def keyOf (text : String) : String := Digest.sha256Hex text

def find (cache : EmbeddingCache) (now : Nat) (text : String) : Option Embedding × EmbeddingCache :=
  cache.get now (keyOf text)

def insert (cache : EmbeddingCache) (now : Nat) (text : String) (vector : Embedding) :
    EmbeddingCache :=
  cache.set now (keyOf text) vector

/-- A vector or why there is none, and whether it had to be computed. -/
structure Computed (ε : Type) where
  result : Except ε Embedding
  ran : Bool
  cache : EmbeddingCache

/-- The vector of a text from the cache; if it is not there it is computed and kept, unless that
fails. The clock is read when the text is looked up and again when the vector is kept. -/
def findOrComputeDuring {ε : Type} (cache : EmbeddingCache) (clock : Nat → Nat) (text : String)
    (compute : String → Except ε Embedding) : Computed ε :=
  match cache.find (clock 0) text with
  | (some vector, cache) => ⟨.ok vector, false, cache⟩
  | (none, cache) =>
    match compute text with
    | .ok vector => ⟨.ok vector, true, cache.insert (clock 1) text vector⟩
    | .error error => ⟨.error error, true, cache⟩

/-- The vector of a text from the cache or computed, at a time that does not pass. -/
def findOrCompute {ε : Type} (cache : EmbeddingCache) (now : Nat) (text : String)
    (compute : String → Except ε Embedding) : Computed ε :=
  cache.findOrComputeDuring (fun _ => now) text compute

def encodeVector (vector : Embedding) : Json := .array (vector.map Json.ofFloat32)

def vectorDecoder : Json.Decoder Embedding := Json.Decoder.list Json.Decoder.single

def save (cache : EmbeddingCache) : String := Cache.save encodeVector cache

def load (capacity ttl now : Nat) (text : Option String) : EmbeddingCache :=
  Cache.load vectorDecoder capacity ttl now text

end EmbeddingCache

end CodeAtlas

import CodeAtlas.Embedding.Hash
import CodeAtlas.Embedding.Store

namespace CodeAtlas

/-- A service that computes vectors. What it answers to a batch of texts may depend on the batches
that it was asked before, and may have any shape; it may also fail. -/
structure Provider where
  dimension : Nat
  model : String
  answer : List (List String) → List String → Option (List Embedding)

structure Embedder where
  provider : Option Provider
  /-- The dimension of all its vectors, at least 1. -/
  dimension : Nat
  cache : EmbeddingCache
  /-- How many batches the provider did not answer properly. -/
  fallbackBatches : Nat
  /-- The batches that the provider was asked. -/
  asked : List (List String)

namespace Embedder

/-- An embedder with a provider if there is one, and else with the default dimension. -/
def new (provider : Option Provider) (cache : EmbeddingCache) : Embedder :=
  let dimension := (provider.map (·.dimension)).getD Embedding.defaultDimension
  ⟨provider, max dimension 1, cache, 0, []⟩

/-- An embedder without a provider. -/
def hashOnly (dimension : Nat) (cache : EmbeddingCache) : Embedder :=
  ⟨none, max dimension 1, cache, 0, []⟩

/-- What computes the vectors. -/
def model (embedder : Embedder) : String := (embedder.provider.map (·.model)).getD "hash"

/-- Whether an answer has one vector of the right dimension for each text. -/
def isWellFormed (vectors : List Embedding) (count dimension : Nat) : Bool :=
  vectors.length == count && vectors.all (·.length == dimension)

def hashVectors (embedder : Embedder) (texts : List String) : List Embedding :=
  texts.map (Embedding.hash embedder.dimension)

/-- Vectors for texts that are not in the cache. They may be kept unless the provider was at
fault. -/
def compute (embedder : Embedder) (texts : List String) : List Embedding × Bool × Embedder :=
  match embedder.provider with
  | none => (embedder.hashVectors texts, true, embedder)
  | some provider =>
    let answer := provider.answer embedder.asked texts
    let embedder := { embedder with asked := embedder.asked ++ [texts] }
    match answer.filter (isWellFormed · texts.length embedder.dimension) with
    | some vectors => (vectors, true, embedder)
    | none =>
      (embedder.hashVectors texts, false,
        { embedder with fallbackBatches := embedder.fallbackBatches + 1 })

/-- Looks texts up, from the `i`-th reading of the clock on; a vector of another dimension is of no
use. -/
def lookUp (dimension : Nat) (clock : Nat → Nat) : Nat → List String → EmbeddingCache →
    List (Option Embedding) × EmbeddingCache
  | _, [], cache => ([], cache)
  | i, text :: texts, cache =>
    let (found, cache) := cache.find (clock i) text
    let (others, cache) := lookUp dimension clock (i + 1) texts cache
    (found.filter (·.length == dimension) :: others, cache)

/-- The texts without a vector, each once. -/
def missing (texts : List String) (found : List (Option Embedding)) : List String :=
  (((texts.zip found).filter (·.2.isNone)).map (·.1)).eraseDups

/-- Keeps vectors of texts, from the `i`-th reading of the clock on. -/
def keep (clock : Nat → Nat) : Nat → List (String × Embedding) → EmbeddingCache → EmbeddingCache
  | _, [], cache => cache
  | i, (text, vector) :: vectors, cache =>
    keep clock (i + 1) vectors (cache.insert (clock i) text vector)

/-- The vectors of texts, one for each in order. The clock is read anew whenever a text is looked up
or a vector is kept. -/
def embedDuring (embedder : Embedder) (clock : Nat → Nat) (texts : List String) :
    List Embedding × Embedder :=
  let (found, cache) := lookUp embedder.dimension clock 0 texts embedder.cache
  let embedder := { embedder with cache }
  let misses := missing texts found
  if misses.isEmpty then (found.map (·.getD []), embedder)
  else
    let (vectors, keepable, embedder) := embedder.compute misses
    let computed := misses.zip vectors
    let cache :=
      if keepable then keep clock texts.length computed embedder.cache else embedder.cache
    ((texts.zip found).map fun (text, vector) => (vector.or (computed.lookup text)).getD [],
      { embedder with cache })

/-- The vectors of texts at a time that does not pass. -/
def embed (embedder : Embedder) (now : Nat) (texts : List String) : List Embedding × Embedder :=
  embedder.embedDuring (fun _ => now) texts

end Embedder

end CodeAtlas

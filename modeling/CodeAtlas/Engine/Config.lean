import CodeAtlas.Cache.Basic
import CodeAtlas.Chunk.Basic
import CodeAtlas.Path.Basic
import CodeAtlas.Toml.Parse

namespace CodeAtlas

structure Config where
  /-- Where the state is kept: below the root of the project unless it is absolute. -/
  stateDirectory : String
  dimension : Nat
  embeddingCapacity : Nat
  embeddingSeconds : Nat
  queryCapacity : Nat
  querySeconds : Nat
  chunks : ChunkOptions
  defaultLimit : Nat
  deriving Repr, DecidableEq

inductive ConfigError where
  /-- The text is no TOML document, or a setting in it has the wrong type. -/
  | malformed
  | chunker (error : ChunkError)
  deriving Repr, DecidableEq

namespace Config

def defaultStateDirectory : String := ".context"

def default : Config where
  stateDirectory := defaultStateDirectory
  dimension := 384
  embeddingCapacity := 10000
  embeddingSeconds := 86400
  queryCapacity := 1000
  querySeconds := 300
  chunks := .default
  defaultLimit := 10

/-- What a section holds at each of its settings. A section is a table, or an array of its settings
in order; a point in time counts as a section without settings. -/
def settings? (names : List String) : Toml → Option (List (Option Toml))
  | .table _ members => some (names.map fun name => members.lookup name)
  | .tables elements =>
    let items := elements.reverse
    some ((List.range names.length).map fun i => items[i]?)
  | .array items => some ((List.range names.length).map fun i => items[i]?)
  | .moment => some (names.map fun _ => none)
  | _ => none

/-- A setting, or its default. -/
def setting? {α : Type} (read : Toml → Option α) (value : α) : Option Toml → Option α
  | none => some value
  | some found => read found

def natural? : Toml → Option Nat
  | .integer value => if 0 ≤ value then some value.toNat else none
  | _ => none

def boolean? : Toml → Option Bool
  | .boolean value => some value
  | _ => none

def string? : Toml → Option String
  | .string text => some text
  | _ => none

/-- The settings of vectors: dimension, capacity and seconds. -/
def readEmbedding? (config : Config) (part : Toml) : Option Config := do
  match ← settings? ["dimension", "cache_capacity", "cache_ttl_secs"] part with
  | [dimension, capacity, seconds] =>
    return { config with
      dimension := ← setting? natural? default.dimension dimension
      embeddingCapacity := ← setting? natural? default.embeddingCapacity capacity
      embeddingSeconds := ← setting? natural? default.embeddingSeconds seconds }
  | _ => none

def readQueryCache? (config : Config) (part : Toml) : Option Config := do
  match ← settings? ["capacity", "ttl_secs"] part with
  | [capacity, seconds] =>
    return { config with
      queryCapacity := ← setting? natural? default.queryCapacity capacity
      querySeconds := ← setting? natural? default.querySeconds seconds }
  | _ => none

def readChunker? (config : Config) (part : Toml) : Option Config := do
  match ← settings? ["max_chunk_lines", "skip_blank_chunks"] part with
  | [maxLines, skipBlank] =>
    let maxLines ← setting? natural? ChunkOptions.default.maxLines maxLines
    let skipBlank ← setting? boolean? ChunkOptions.default.skipBlank skipBlank
    return { config with chunks := ⟨maxLines, skipBlank⟩ }
  | _ => none

def readSearch? (config : Config) (part : Toml) : Option Config := do
  match ← settings? ["default_limit"] part with
  | [limit] => return { config with defaultLimit := ← setting? natural? default.defaultLimit limit }
  | _ => none

/-- Reads a section if it is there. -/
def readSection? (read : Config → Toml → Option Config) (found : Option Toml) (config : Config) :
    Option Config :=
  match found with
  | none => some config
  | some part => read config part

/-- The settings of a document. -/
def ofToml? (document : Toml) : Option Config := do
  match ← settings? ["state_dir", "embedding", "query_cache", "chunker", "search"] document with
  | [directory, embedding, queryCache, chunker, search] =>
    let directory ← setting? string? defaultStateDirectory directory
    let config ← readSection? readEmbedding? embedding { default with stateDirectory := directory }
    let config ← readSection? readQueryCache? queryCache config
    let config ← readSection? readChunker? chunker config
    readSection? readSearch? search config
  | _ => none

/-- Reads settings that an engine can work with; an empty state directory means the default. -/
def parse (text : String) : Except ConfigError Config :=
  match (Toml.parse? text).bind ofToml? with
  | none => .error .malformed
  | some config =>
    let config :=
      if config.stateDirectory.isEmpty then { config with stateDirectory := defaultStateDirectory }
      else config
    match config.chunks.check with
    | .error error => .error (.chunker error)
    | .ok () => .ok config

/-- The directory of the state of a project. -/
def stateIn (config : Config) (root : String) : String :=
  Path.below root
    (if config.stateDirectory.isEmpty then defaultStateDirectory else config.stateDirectory)

def graphPath (config : Config) (root : String) : String :=
  Path.below (config.stateIn root) "graph.json"

def vectorsPath (config : Config) (root : String) : String :=
  Path.below (config.stateIn root) "vectors.json"

def embeddingsPath (config : Config) (root : String) : String :=
  Path.below (config.stateIn root) "embeddings.json"

/-- How long vectors of texts are kept, in milliseconds. -/
def embeddingTtl (config : Config) : Nat := Cache.ttlOfSeconds config.embeddingSeconds

/-- How long answers are kept, in milliseconds. -/
def queryTtl (config : Config) : Nat := Cache.ttlOfSeconds config.querySeconds

end Config

namespace ConfigError

/-- The text of an error that the settings themselves cause. -/
def message : ConfigError → String
  | malformed => "Invalid config"
  | chunker error => "Chunker error: " ++ error.message

end ConfigError

end CodeAtlas

import CodeAtlas.Cache.Basic
import CodeAtlas.Json.Decode
import CodeAtlas.Json.Printer

namespace CodeAtlas.Cache

variable {α : Type}

def encodeEntry (encode : α → Json) (entry : CacheEntry α) : Json :=
  .object [("key", .string entry.key), ("value", encode entry.value),
    ("timestamp", Json.ofNat entry.timestamp), ("access_count", Json.ofNat entry.accessCount)]

/-- The text of the entries of a cache. -/
def save (encode : α → Json) (cache : Cache α) : String :=
  (Json.object [("entries", .array (cache.entries.map (encodeEntry encode)))]).render

open Json in
def entryDecoder (value : Decoder α) : Decoder (CacheEntry α) :=
  Decoder.record ["key", "value", "timestamp", "access_count"] fun depth fields =>
    match fields with
    | [key, found, timestamp, accessCount] => do
      return {
        key := ← Decoder.required Decoder.string depth key
        value := ← Decoder.required value depth found
        timestamp := ← Decoder.required Decoder.natural depth timestamp
        accessCount := ← Decoder.required Decoder.natural depth accessCount }
    | _ => none

open Json in
def entriesDecoder (value : Decoder α) : Decoder (List (CacheEntry α)) :=
  Decoder.record ["entries"] fun depth fields =>
    match fields with
    | [entries] => Decoder.required (Decoder.list (entryDecoder value)) depth entries
    | _ => none

/-- Takes over the entries that are younger than the time to live. -/
def restore (cache : Cache α) (now : Nat) (entries : List (CacheEntry α)) : Cache α :=
  (entries.filter fun entry => now - entry.timestamp < cache.ttl).foldl place cache

/-- The cache of a text; it is empty if there is no text or a malformed one. -/
def load (value : Json.Decoder α) (capacity ttl now : Nat) (text : Option String) : Cache α :=
  match text.bind (Json.decode? (entriesDecoder value)) with
  | none => new capacity ttl
  | some entries => (new capacity ttl).restore now entries

end CodeAtlas.Cache

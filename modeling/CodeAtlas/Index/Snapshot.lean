import CodeAtlas.Embedding.Store
import CodeAtlas.Index.Basic

namespace CodeAtlas

def IndexRecord.encode (record : IndexRecord) : Json :=
  .object [("id", .string record.id), ("text", .string record.text),
    ("metadata", .object record.metadata),
    ("embedding", EmbeddingCache.encodeVector record.embedding)]

namespace VectorIndex

/-- The text of an index. -/
def save (index : VectorIndex) : String :=
  (Json.object [
    ("dimension", (index.dimension.map Json.ofNat).getD .null),
    ("records", .array (index.records.map IndexRecord.encode))]).render

open Json in
def recordDecoder : Decoder IndexRecord :=
  Decoder.record ["id", "text", "metadata", "embedding"] fun depth fields =>
    match fields with
    | [id, text, metadata, embedding] => do
      return {
        id := ← Decoder.required Decoder.string depth id
        text := ← Decoder.required Decoder.string depth text
        metadata := ← Decoder.defaulted [] (Decoder.dictionary Decoder.json) depth metadata
        embedding := ← Decoder.required EmbeddingCache.vectorDecoder depth embedding }
    | _ => none

open Json in
/-- The dimension and the records of a text. -/
def snapshotDecoder : Decoder (Option Nat × List IndexRecord) :=
  Decoder.record ["dimension", "records"] fun depth fields =>
    match fields with
    | [dimension, records] => do
      return (← Decoder.defaulted none (Decoder.optional Decoder.natural) depth dimension,
        ← Decoder.required (Decoder.list recordDecoder) depth records)
    | _ => none

/-- Why a text gives no index. -/
inductive LoadError where
  | malformed
  | dimension (error : DimensionError)
  deriving Repr, DecidableEq

/-- Reads an index from its text. -/
def load (text : String) : Except LoadError VectorIndex :=
  match Json.decode? snapshotDecoder text with
  | none => .error .malformed
  | some (dimension, records) =>
    match (⟨dimension, []⟩ : VectorIndex).insertMany records with
    | .ok index => .ok index
    | .error error => .error (.dimension error)

end VectorIndex

end CodeAtlas

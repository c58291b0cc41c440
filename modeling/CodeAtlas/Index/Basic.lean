import CodeAtlas.Chunk.Basic
import CodeAtlas.Embedding.Basic
import CodeAtlas.Index.Places
import CodeAtlas.Json.Basic

namespace CodeAtlas

structure IndexRecord where
  id : String
  text : String
  /-- What else is known, by key. -/
  metadata : List (String × Json)
  embedding : Embedding

namespace IndexRecord

/-- The record of a chunk: its id, its content and where it stands. -/
def ofChunk (chunk : Chunk) (embedding : Embedding) : IndexRecord where
  id := chunk.id
  text := chunk.content
  metadata := Json.sortMembers
    ([("file_path", .string chunk.path), ("start_line", Json.ofNat chunk.firstLine),
      ("end_line", Json.ofNat chunk.lastLine)]
      ++ (chunk.symbol.map fun (_, name) => ("symbol", Json.string name)).toList)
  embedding := embedding

end IndexRecord

instance noPlaces : Places (([] : List IndexRecord).map (·.id)) := Places.none

/-- As each id has one place, no two records share an id. -/
structure VectorIndex where
  dimension : Option Nat
  records : List IndexRecord
  [places : Places (records.map (·.id))]

/-- A vector has not the dimension that the index expects. -/
structure DimensionError where
  expected : Nat
  actual : Nat
  deriving Repr, DecidableEq

def DimensionError.message (error : DimensionError) : String :=
  s!"Invalid vector dimension: expected {error.expected}, got {error.actual}"

namespace VectorIndex

/-- An empty index whose dimension is not set. -/
def empty : VectorIndex := ⟨none, []⟩

def withDimension (dimension : Nat) : VectorIndex := ⟨some dimension, []⟩

/-- The dimension after records come in one after the other. -/
def settle (expected : Option Nat) : List IndexRecord → Except DimensionError (Option Nat)
  | [] => .ok expected
  | record :: records =>
    match expected with
    | none => settle (some record.embedding.length) records
    | some expected =>
      if expected = record.embedding.length then settle (some expected) records
      else .error ⟨expected, record.embedding.length⟩

theorem map_id_set (index : VectorIndex) {place : Nat} {record : IndexRecord}
    (known : index.places.map[record.id]? = some place) :
    index.records.map (·.id) = (index.records.set place record).map (·.id) := by
  have atPlace := (index.places.locates record.id place).mp known
  obtain ⟨bound, same⟩ := List.getElem?_eq_some_iff.mp atPlace
  rw [List.map_set, ← same, List.set_getElem_self bound]

theorem map_id_eraseIdx (index : VectorIndex) (place : Nat) :
    (index.records.map (·.id)).eraseIdx place = (index.records.eraseIdx place).map (·.id) := by
  simp only [List.eraseIdx_eq_take_drop_succ, List.map_append, List.map_take, List.map_drop]

theorem nodup_ids (index : VectorIndex) : (index.records.map (·.id)).Nodup :=
  index.places.locates.nodup

theorem nodup_map_id_filter (index : VectorIndex) (keep : IndexRecord → Bool) :
    ((index.records.filter keep).map (·.id)).Nodup :=
  index.nodup_ids.sublist (List.filter_sublist.map _)

/-- Puts a record in the place of the one with its id, or at the end if there is none. -/
def put (index : VectorIndex) (record : IndexRecord) : VectorIndex :=
  match known : index.places.map[record.id]? with
  | some place =>
    { index with
      records := index.records.set place record
      places := index.places.congr (index.map_id_set known) }
  | none =>
    { index with
      records := index.records ++ [record]
      places := (index.places.snoc known).congr List.map_append.symm }

/-- Takes in records, all of them or, if a dimension is wrong, none. -/
def insertMany (index : VectorIndex) (records : List IndexRecord) :
    Except DimensionError VectorIndex := do
  let dimension ← settle index.dimension records
  return records.foldl put { index with dimension }

def insert (index : VectorIndex) (record : IndexRecord) : Except DimensionError VectorIndex :=
  index.insertMany [record]

/-- A record and how near its vector is to the one that was asked for. -/
structure Scored where
  record : IndexRecord
  score : Float32

variable [Machine]

/-- All records by their nearness to a vector, the nearest first; records that are equally near
keep their order. -/
def ranking (index : VectorIndex) (vector : Embedding) : List Scored :=
  Embedding.sortByScore Scored.score
    (index.records.map fun record => ⟨record, Embedding.cosine vector record.embedding⟩)

/-- The `count` records that are nearest to a vector. -/
def query (index : VectorIndex) (vector : Embedding) (count : Nat) :
    Except DimensionError (List Scored) :=
  if index.records.isEmpty ∨ count = 0 then .ok []
  else
    match index.dimension with
    | some expected =>
      if vector.length = expected then .ok ((index.ranking vector).take count)
      else .error ⟨expected, vector.length⟩
    | none => .ok ((index.ranking vector).take count)

def get? (index : VectorIndex) (id : String) : Option IndexRecord :=
  index.places.map[id]?.bind fun place => index.records[place]?

/-- Drops the record with an id. -/
def remove (index : VectorIndex) (id : String) : Option IndexRecord × VectorIndex :=
  match known : index.places.map[id]? with
  | some place =>
    (index.records[place]?,
      { index with
        records := index.records.eraseIdx place
        places := (index.places.eraseIdx known).congr (index.map_id_eraseIdx place) })
  | none => (none, index)

/-- Drops the records whose ids begin with a text; yields how many they were. -/
def removeUnder (index : VectorIndex) (start : String) : Nat × VectorIndex :=
  let kept := index.records.filter fun record => !record.id.startsWith start
  (index.records.length - kept.length,
    { index with records := kept, places := .ofList (index.nodup_map_id_filter _) })

end VectorIndex

end CodeAtlas

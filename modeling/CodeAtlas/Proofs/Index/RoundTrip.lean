import CodeAtlas.Index.Snapshot
import CodeAtlas.Proofs.Embedding.Saved
import CodeAtlas.Proofs.Index.History

namespace CodeAtlas

open Json

namespace IndexRecord

/-- What the record of a chunk says about where it stands. -/
def placed (chunk : Chunk) : List (String × Json) :=
  [("end_line", Json.ofNat chunk.lastLine), ("file_path", .string chunk.path),
    ("start_line", Json.ofNat chunk.firstLine)]
    ++ (chunk.symbol.map fun symbol => ("symbol", Json.string symbol.2)).toList

theorem metadata_ofChunk (chunk : Chunk) (vector : Embedding) :
    (ofChunk chunk vector).metadata = placed chunk := by
  have start : ¬ "start_line" < "file_path" := by decide
  have stop : "end_line" < "file_path" := by decide
  have placed_here : sortMembers [("file_path", .string chunk.path),
      ("start_line", Json.ofNat chunk.firstLine), ("end_line", Json.ofNat chunk.lastLine)] =
      [("end_line", Json.ofNat chunk.lastLine), ("file_path", .string chunk.path),
        ("start_line", Json.ofNat chunk.firstLine)] := by
    simp only [sortMembers, List.foldl_cons, List.foldl_nil, insertMember, start, stop, if_true,
      if_false, String.reduceEq]
  cases named : chunk.symbol with
  | none =>
    simp only [ofChunk, placed, named, Option.map_none, Option.toList_none, List.append_nil]
    exact placed_here
  | some symbol =>
    have last : ∀ member ∈ [("end_line", Json.ofNat chunk.lastLine),
        ("file_path", .string chunk.path), ("start_line", Json.ofNat chunk.firstLine)],
        member.1 < "symbol" := by
      simp only [List.forall_mem_cons]
      exact ⟨by decide, by decide, by decide, List.forall_mem_nil _⟩
    simp only [ofChunk, placed, named, Option.map_some, Option.toList_some]
    rw [sortMembers, List.foldl_append, ← sortMembers, placed_here]
    exact insertMember_append last

/-- The members stand by key already. -/
theorem sortMembers_placed (chunk : Chunk) : sortMembers (placed chunk) = placed chunk := by
  refine sortMembers_of_sorted (List.pairwise_map.mp ?_)
  unfold placed
  cases chunk.symbol with
  | none =>
    show ["end_line", "file_path", "start_line"].Pairwise (· < ·)
    decide
  | some symbol =>
    show ["end_line", "file_path", "start_line", "symbol"].Pairwise (· < ·)
    decide

/-- The record of a chunk whose lines are counted in 64 bits. Its vector is made of numbers that are
read back. -/
structure Readable (record : IndexRecord) : Prop where
  chunk : ∃ chunk : Chunk, chunk.firstLine < UInt64.size ∧ chunk.lastLine < UInt64.size ∧
    record = ofChunk chunk record.embedding
  back : ∀ x ∈ record.embedding, ReadsBack x

/-- What is read where the record of a chunk says where it stands. -/
def placedDocument (chunk : Chunk) : List (String × Document) :=
  [("end_line", .number (naturalLiteral chunk.lastLine)), ("file_path", .string (some chunk.path)),
    ("start_line", .number (naturalLiteral chunk.firstLine))]
    ++ (chunk.symbol.map fun symbol => ("symbol", Document.string (some symbol.2))).toList

theorem spells_placed (chunk : Chunk) :
    Spells (.object (placed chunk)) (.ofMembers (placedDocument chunk)) := by
  obtain ⟨path, first, last, content, language, symbol⟩ := chunk
  refine .object (.cons _ (.number (reads_natural _)) (.cons _ (.string _)
    (.cons _ (.number (reads_natural _)) ?_)))
  cases symbol with
  | none => exact .nil
  | some symbol => exact .cons _ (.string _) .nil

theorem dictionary_placed {chunk : Chunk} (first : chunk.firstLine < UInt64.size)
    (last : chunk.lastLine < UInt64.size) (depth : Nat) :
    Decoder.dictionary Decoder.json (depth + 1) (.ofMembers (placedDocument chunk)) =
      some (placed chunk) := by
  have start : (naturalLiteral chunk.firstLine).number? = some (.integer chunk.firstLine) :=
    literal_number?_natural first
  have stop : (naturalLiteral chunk.lastLine).number? = some (.integer chunk.lastLine) :=
    literal_number?_natural last
  have sorted := sortMembers_placed chunk
  obtain ⟨path, _, _, content, language, symbol⟩ := chunk
  cases symbol <;>
    simp [Decoder.dictionary, Document.ofMembers, placedDocument, Decoder.json, Document.toJson?,
      start, stop, placed, Json.ofNat] at sorted ⊢ <;>
    exact sorted

theorem Readable.readsAs {record : IndexRecord} (readable : record.Readable) :
    ReadsAs VectorIndex.recordDecoder 2 record.encode record := by
  obtain ⟨⟨chunk, first, last, same⟩, back⟩ := readable
  obtain ⟨vector, spells, read⟩ := EmbeddingCache.readsAs_vector back
  have metadata : record.metadata = placed chunk := by
    rw [same, metadata_ofChunk]
  refine ⟨.ofMembers [("id", .string (some record.id)), ("text", .string (some record.text)),
    ("metadata", .ofMembers (placedDocument chunk)), ("embedding", vector)], ?_, fun more => ?_⟩
  · rw [encode, metadata]
    exact .object (.cons _ (.string _) (.cons _ (.string _) (.cons _ (spells_placed chunk)
      (.cons _ spells .nil))))
  · rw [VectorIndex.recordDecoder, Decoder.record, Decoder.fields?_ofMembers _ (by simp)]
    simp [lookup_cons_eq_ite, Decoder.required, Decoder.defaulted, Decoder.string,
      dictionary_placed first last, read more, ← metadata]

end IndexRecord

namespace VectorIndex

variable {index : VectorIndex}

/-- The text of a dimension, or of none. -/
theorem readsAs_dimension {dimension : Option Nat} (counted : ∀ n ∈ dimension, n < UInt64.size) :
    ReadsAs (Decoder.optional Decoder.natural) 0 ((dimension.map Json.ofNat).getD .null)
      dimension := by
  cases dimension with
  | none => exact ⟨.null, .null, fun _ => rfl⟩
  | some n =>
    refine ⟨.number (naturalLiteral n), .number (reads_natural n), fun more => ?_⟩
    have value : (naturalLiteral n).number? = some (.integer n) :=
      literal_number?_natural (counted n rfl)
    simp [Decoder.optional, Decoder.natural, value]

theorem decode?_save (readable : ∀ record ∈ index.records, record.Readable)
    (counted : ∀ n ∈ index.dimension, n < UInt64.size) :
    Json.decode? snapshotDecoder index.save = some (index.dimension, index.records) := by
  obtain ⟨records, spells, read⟩ := readsAs_list fun record member => (readable record member).readsAs
  obtain ⟨dimension, spelled, same⟩ := readsAs_dimension counted
  have snapshot : ReadsAs snapshotDecoder 4
      (.object [("dimension", (index.dimension.map Json.ofNat).getD .null),
        ("records", .array (index.records.map IndexRecord.encode))])
      (index.dimension, index.records) := by
    refine ⟨.ofMembers [("dimension", dimension), ("records", records)],
      .object (.cons _ spelled (.cons _ spells .nil)), fun more => ?_⟩
    rw [snapshotDecoder, Decoder.record, Decoder.fields?_ofMembers _ (by simp)]
    have set : Decoder.optional Decoder.natural (more + 3) dimension = some index.dimension :=
      same (more + 3)
    simp [lookup_cons_eq_ite, Decoder.required, Decoder.defaulted, read more, set]
  exact snapshot.decode? (by decide)

/-- Records that fit in are all taken up where there are none yet. -/
theorem exists_insertMany {dimension : Option Nat} {records : List IndexRecord}
    (uniform : ∀ record ∈ records, dimension = some record.embedding.length)
    (distinct : (records.map (·.id)).Nodup) :
    ∃ index, insertMany ⟨dimension, []⟩ records = .ok index ∧ index.dimension = dimension ∧
      index.records = records := by
  have settled : settle dimension records = .ok dimension := by
    refine settle_eq_ok_iff.mpr ⟨?_, uniform⟩
    cases set : dimension with
    | some n => rfl
    | none =>
      cases listed : records with
      | nil => rfl
      | cons record records =>
        have known := uniform record (listed ▸ List.mem_cons_self)
        rw [set] at known
        cases known
  exact ⟨_, insertMany_eq_ok_iff.mpr ⟨dimension, settled, rfl⟩, dimension_putAll _ _,
    records_putAll (fun _ _ => List.not_mem_nil) distinct⟩

/-- An index that is made of records of chunks is loaded as it was saved. -/
theorem load_save (uniform : index.Uniform)
    (readable : ∀ record ∈ index.records, record.Readable)
    (counted : ∀ n ∈ index.dimension, n < UInt64.size) : load index.save = .ok index := by
  obtain ⟨loaded, inserted, dimension, records⟩ := exists_insertMany uniform index.nodup_ids
  obtain rfl : loaded = index := eq_of_records dimension records
  unfold load
  rw [decode?_save readable counted]
  simp only [inserted]

end VectorIndex

end CodeAtlas

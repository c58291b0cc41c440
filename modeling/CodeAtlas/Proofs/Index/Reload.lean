import CodeAtlas.Proofs.Index.RoundTrip
import CodeAtlas.Proofs.Json.Lasting

namespace CodeAtlas

open Json

/-- What may be said of a list that is read item by item. -/
theorem Json.exists_legibleItems {α β : Type} {encode : α → Json} {decode : Document → Option β}
    {read : α → Option β} {xs : List α}
    (each : ∀ x ∈ xs, ∃ document, Spells (encode x).legible document ∧ decode document = read x) :
    ∃ documents, SpellsItems (legibleItems (xs.map encode)) documents ∧
      documents.mapM decode = xs.mapM read := by
  induction xs with
  | nil => exact ⟨[], .nil, rfl⟩
  | cons x xs ih =>
    obtain ⟨first, rest⟩ := List.forall_mem_cons.mp each
    obtain ⟨document, spells, made⟩ := first
    obtain ⟨documents, spelled, all⟩ := ih rest
    refine ⟨document :: documents, .cons spells spelled, ?_⟩
    rw [List.mapM_cons, List.mapM_cons, made, all]

theorem Json.exists_parse? (json : Json) :
    ∃ document, Spells json.legible document ∧ Document.parse? json.render = some document := by
  obtain ⟨document, spells⟩ := exists_document json
  have parsed := spells.parse?
  rw [render_legible] at parsed
  exact ⟨document, spells, parsed⟩

namespace IndexRecord

/-- What is read of the text of metadata, as deep in the text of an index as it stands there. -/
def rereadMetadata (metadata : List (String × Json)) : Option (List (String × Json)) :=
  (Document.parse? (Json.object metadata).render).bind
    (Decoder.dictionary Decoder.json (maxDepth - 3))

/-- The record as it is read from its text, if it is. -/
def reread (record : IndexRecord) : Option IndexRecord := do
  return { record with
    metadata := ← rereadMetadata record.metadata
    embedding := ← record.embedding.mapM Json.reread }

theorem exists_vectorDocument (vector : Embedding) (depth : Nat) :
    ∃ document, Spells (EmbeddingCache.encodeVector vector).legible document ∧
      EmbeddingCache.vectorDecoder (depth + 1) document = vector.mapM Json.reread := by
  have each : ∀ x ∈ vector, ∃ document, Spells (ofFloat32 x).legible document ∧
      Decoder.single depth document = Json.reread x := by
    intro x _
    obtain ⟨document, spells, parsed⟩ := exists_parse? (ofFloat32 x)
    refine ⟨document, spells, ?_⟩
    rw [Json.reread, decode?, parsed]
    cases document <;> rfl
  obtain ⟨documents, spells, read⟩ := exists_legibleItems each
  exact ⟨.array documents, .array spells, read⟩

theorem exists_recordDocument (record : IndexRecord) :
    ∃ document, Spells record.encode.legible document ∧
      VectorIndex.recordDecoder (maxDepth - 2) document = record.reread := by
  obtain ⟨vector, spells, read⟩ := exists_vectorDocument record.embedding (maxDepth - 4)
  obtain ⟨metadata, spelled, parsed⟩ := exists_parse? (.object record.metadata)
  refine ⟨.ofMembers [("id", .string (some record.id)), ("text", .string (some record.text)),
    ("metadata", metadata), ("embedding", vector)], ?_, ?_⟩
  · exact .object (.cons _ (.string _) (.cons _ (.string _) (.cons _ spelled (.cons _ spells .nil))))
  · have meta' : rereadMetadata record.metadata =
        Decoder.dictionary Decoder.json (maxDepth - 3) metadata := by
      rw [rereadMetadata, parsed]
      rfl
    rw [VectorIndex.recordDecoder, show maxDepth - 2 = maxDepth - 3 + 1 from rfl, Decoder.record,
      Decoder.fields?_ofMembers _ (by simp), reread, meta', ← read]
    simp [lookup_cons_eq_ite, Decoder.required, Decoder.defaulted, Decoder.string]
    rfl

/-- What is the same in a record that is read: all but the numbers of its vector, and its metadata
are what their text says. -/
structure Rereads (record read : IndexRecord) : Prop where
  id : read.id = record.id
  text : read.text = record.text
  metadata : rereadMetadata record.metadata = some read.metadata
  length : read.embedding.length = record.embedding.length

theorem rereads_of_reread {record read : IndexRecord} (taken : record.reread = some read) :
    Rereads record read := by
  obtain ⟨metadata, known, taken⟩ := Option.bind_eq_some_iff.mp taken
  obtain ⟨vector, numbers, taken⟩ := Option.bind_eq_some_iff.mp taken
  obtain rfl := Option.some.inj taken
  exact ⟨rfl, rfl, known, (mapM_eq_some_iff.mp numbers).length_eq.symm⟩

theorem rereadMetadata_of_lasts {metadata : List (String × Json)}
    (lasts : Lasts (maxDepth - 3) (.object metadata)) : rereadMetadata metadata = some metadata := by
  have deep : Lasts (maxDepth - 4 + 1) (.object metadata) := lasts
  obtain ⟨document, spells, read⟩ := deep.exists_dictionary
  rw [rereadMetadata, spells.parse?]
  exact read

/-- The metadata have a text that can be read, and all numbers of the vector are finite. -/
def Sound (record : IndexRecord) : Prop :=
  (∀ x ∈ record.embedding, x.isFinite = true) ∧ (rereadMetadata record.metadata).isSome

theorem reread_isSome_iff (record : IndexRecord) : record.reread.isSome ↔ record.Sound := by
  have vector : (record.embedding.mapM Json.reread).isSome ↔
      ∀ x ∈ record.embedding, x.isFinite = true := by
    rw [mapM_isSome_iff]
    exact forall₂_congr fun x _ => Json.reread_isSome_iff x
  unfold Sound
  rw [← vector, reread]
  cases rereadMetadata record.metadata <;> cases record.embedding.mapM Json.reread <;> simp

/-- What is written of the record is read as it was: its metadata, and each number of its vector that
is finite. -/
structure Kept (record : IndexRecord) : Prop where
  metadata : rereadMetadata record.metadata = some record.metadata
  numbers : ∀ x ∈ record.embedding, x.isFinite = true → ReadsBack x

theorem Kept.reread_eq {record : IndexRecord} (kept : record.Kept)
    (finite : ∀ x ∈ record.embedding, x.isFinite = true) : record.reread = some record := by
  have vector : record.embedding.mapM Json.reread = some record.embedding := by
    rw [mapM_eq_some_iff, List.forall₂_same]
    exact fun x listed => kept.numbers x listed (finite x listed)
  rw [reread, kept.metadata, vector]
  rfl

end IndexRecord

namespace VectorIndex

variable {index : VectorIndex}

theorem exists_dimensionDocument {dimension : Option Nat} (counted : ∀ n ∈ dimension, n < UInt64.size) :
    ∃ document, Spells ((dimension.map Json.ofNat).getD .null).legible document ∧
      ∀ depth, Decoder.optional Decoder.natural depth document = some dimension := by
  cases dimension with
  | none => exact ⟨.null, .null, fun _ => rfl⟩
  | some n =>
    have written : (Json.ofNat n).legible = Json.ofNat n := legible_number (reads_natural n)
    refine ⟨.number (naturalLiteral n), ?_, fun depth => ?_⟩
    · rw [Option.map_some, Option.getD_some, written]
      exact .number (reads_natural n)
    · have value := Decoder.natural_literal (counted n rfl) depth
      simp [Decoder.optional, value]

/-- All records are read, each on its own, or none is. -/
theorem decode?_save_eq (counted : ∀ n ∈ index.dimension, n < UInt64.size) :
    Json.decode? snapshotDecoder index.save =
      (index.records.mapM IndexRecord.reread).map (index.dimension, ·) := by
  obtain ⟨records, spells, read⟩ :=
    exists_legibleItems fun record (_ : record ∈ index.records) => record.exists_recordDocument
  obtain ⟨dimension, spelled, same⟩ := exists_dimensionDocument counted
  have document : Spells (Json.object [("dimension", (index.dimension.map Json.ofNat).getD .null),
      ("records", .array (index.records.map IndexRecord.encode))]).legible
      (.ofMembers [("dimension", dimension), ("records", .array records)]) :=
    .object (.cons _ spelled (.cons _ (.array spells) .nil))
  have parsed := document.parse?
  rw [render_legible] at parsed
  have list : Decoder.list recordDecoder (maxDepth - 1) (.array records) =
      index.records.mapM IndexRecord.reread := read
  rw [Json.decode?, VectorIndex.save, parsed, snapshotDecoder,
    show maxDepth = maxDepth - 1 + 1 from rfl]
  simp [Decoder.record, Decoder.fields?_ofMembers, lookup_cons_eq_ite, Decoder.required,
    Decoder.defaulted, same]
  rw [list, Option.map_eq_bind]
  rfl

theorem map_id_rereads {records read : List IndexRecord}
    (all : records.Forall₂ IndexRecord.Rereads read) : read.map (·.id) = records.map (·.id) := by
  induction all with
  | nil => rfl
  | cons head _ ih => rw [List.map_cons, List.map_cons, head.id, ih]

theorem uniform_rereads {dimension : Option Nat} {records read : List IndexRecord}
    (all : records.Forall₂ IndexRecord.Rereads read)
    (uniform : ∀ record ∈ records, dimension = some record.embedding.length) :
    ∀ record ∈ read, dimension = some record.embedding.length := by
  intro record member
  obtain ⟨old, listed, same⟩ := exists_of_forall₂ all member
  rw [uniform old listed, same.length]

/-- An index of sound records is loaded, with the same records in the same order. -/
theorem exists_load_save (uniform : index.Uniform)
    (counted : ∀ n ∈ index.dimension, n < UInt64.size)
    (sound : ∀ record ∈ index.records, record.Sound) :
    ∃ loaded, load index.save = .ok loaded ∧ loaded.dimension = index.dimension ∧
      index.records.Forall₂ IndexRecord.Rereads loaded.records := by
  have some : (index.records.mapM IndexRecord.reread).isSome :=
    mapM_isSome_iff.mpr fun record listed => (record.reread_isSome_iff).mpr (sound record listed)
  obtain ⟨read, made⟩ := Option.isSome_iff_exists.mp some
  have all : index.records.Forall₂ IndexRecord.Rereads read :=
    (mapM_eq_some_iff.mp made).imp fun _ _ => IndexRecord.rereads_of_reread
  obtain ⟨loaded, inserted, dimension, records⟩ :=
    exists_insertMany (uniform_rereads all uniform) (map_id_rereads all ▸ index.nodup_ids)
  refine ⟨loaded, ?_, dimension, records ▸ all⟩
  unfold load
  rw [decode?_save_eq counted, made]
  simp only [Option.map_some, inserted]

/-- One record that is not sound is enough for nothing to be loaded. -/
theorem load_save_of_not_sound (counted : ∀ n ∈ index.dimension, n < UInt64.size)
    {record : IndexRecord} (listed : record ∈ index.records) (unsound : ¬ record.Sound) :
    load index.save = .error .malformed := by
  have none : index.records.mapM IndexRecord.reread = none := by
    rw [← Option.not_isSome_iff_eq_none, mapM_isSome_iff]
    exact fun all => unsound ((record.reread_isSome_iff).mp (all record listed))
  unfold load
  rw [decode?_save_eq counted, none]
  rfl

theorem mem_of_afterAll_insertMany {dimension : Nat} {records : List IndexRecord}
    {record : IndexRecord}
    (member : record ∈ ((withDimension dimension).afterAll [.insertMany records]).records) :
    record ∈ records := by
  have reached : (withDimension dimension).afterAll [.insertMany records] =
      ((withDimension dimension).insertMany records).toOption.getD (withDimension dimension) := rfl
  rw [reached] at member
  cases taken : (withDimension dimension).insertMany records with
  | error error =>
    rw [taken] at member
    cases member
  | ok index =>
    rw [taken] at member
    exact (mem_of_insertMany taken member).resolve_left List.not_mem_nil

/-- However an index comes about and whatever is done with it: if all numbers of all vectors are
finite and all metadata can be read, what is saved is loaded, with the same ids and texts in the same
order and with the metadata that are read. Otherwise nothing is loaded. Metadata that last are read
as they were. -/
theorem load_save_iff_sound (origin : Origin) {start : VectorIndex}
    (opens : origin.index? = some start) (steps : List Step)
    (counted : ∀ n ∈ (start.afterAll steps).dimension, n < UInt64.size) :
    let index := start.afterAll steps
    ((∀ record ∈ index.records, record.Sound) →
      ∃ loaded, load index.save = .ok loaded ∧ loaded.dimension = index.dimension ∧
        index.records.Forall₂ IndexRecord.Rereads loaded.records) ∧
      (∀ record ∈ index.records, ¬ record.Sound → load index.save = .error .malformed) ∧
      (∀ record : IndexRecord, (∃ x ∈ record.embedding, x.isFinite = false) → ¬ record.Sound) ∧
      ∀ record : IndexRecord, Lasts (maxDepth - 3) (.object record.metadata) →
        (record.Sound ↔ ∀ x ∈ record.embedding, x.isFinite = true) ∧
          ∀ read, record.Rereads read → read.metadata = record.metadata := by
  intro index
  have uniform : index.Uniform := ((Origin.mirrors opens).afterAll steps).uniform
  refine ⟨exists_load_save uniform counted,
    fun record listed unsound => load_save_of_not_sound counted listed unsound, ?_, ?_⟩
  · rintro record ⟨x, listed, special⟩ sound
    rw [sound.1 x listed] at special
    cases special
  · intro record lasts
    have same := IndexRecord.rereadMetadata_of_lasts lasts
    refine ⟨and_iff_left (by rw [same]; rfl), fun read rereads => ?_⟩
    exact Option.some.inj (rereads.metadata.symm.trans same)

/-- The largest number of 32 bits and the smallest one. -/
theorem load_save_iff_sound_extremes :
    let vector := [Float32.ofBits 0x7F7FFFFF, Float32.ofBits 0x80000001]
    let records : List IndexRecord := [⟨"a", "", [("line", Json.ofNat 3)], vector⟩, ⟨"b", "", [], vector⟩]
    let index := (withDimension 2).afterAll [.insertMany records]
    ∃ loaded, load index.save = .ok loaded ∧
      index.records.Forall₂ IndexRecord.Rereads loaded.records := by
  intro vector records index
  have counted : ∀ n ∈ index.dimension, n < UInt64.size := by
    have set : index.dimension = some 2 := dimension_afterAll rfl _
    rw [set]
    decide
  obtain ⟨loads, _, _, lasting⟩ :=
    load_save_iff_sound (.withDimension 2) rfl [.insertMany records] counted
  have finite : ∀ x ∈ vector, x.isFinite = true := by decide +kernel
  have sound : ∀ record ∈ index.records, record.Sound := by
    intro record member
    rcases List.mem_pair.mp (mem_of_afterAll_insertMany member) with rfl | rfl
    · refine (lasting _ ?_).1.mpr finite
      refine .object (List.pairwise_singleton ..) ?_
      exact List.forall_mem_singleton.mpr (.natural (by decide))
    · exact (lasting _ (.object .nil (List.forall_mem_nil _))).1.mpr finite
  obtain ⟨loaded, ran, _, same⟩ := loads sound
  exact ⟨loaded, ran, same⟩

/-- Two records come in, one of them with an infinite number. After they are saved neither is
loaded. -/
theorem load_save_infinite :
    let records : List IndexRecord := [⟨"a", "", [], [Float32.ofBits 0x7F800000]⟩,
      ⟨"b", "", [], [Float32.ofBits 0x3F800000]⟩]
    ∃ index, (withDimension 1).insertMany records = .ok index ∧ index.records = records ∧
      load index.save = .error .malformed := by
  intro records
  have uniform : ∀ record ∈ records, some 1 = some record.embedding.length := by decide
  have distinct : (records.map (·.id)).Nodup := by decide
  obtain ⟨index, taken, dimension, same⟩ := exists_insertMany uniform distinct
  have listed : records[0] ∈ index.records := by
    rw [same]
    exact List.mem_cons_self
  have counted : ∀ n ∈ index.dimension, n < UInt64.size := by
    rw [dimension]
    decide
  refine ⟨index, taken, same, load_save_of_not_sound counted listed fun sound => ?_⟩
  have special := sound.1 (Float32.ofBits 0x7F800000) List.mem_cons_self
  exact absurd special (by decide +kernel)

/-- Records that are read as they are make the same index anew. -/
theorem load_save_of_reread (uniform : index.Uniform)
    (counted : ∀ n ∈ index.dimension, n < UInt64.size)
    (same : ∀ record ∈ index.records, record.reread = some record) : load index.save = .ok index := by
  obtain ⟨loaded, inserted, dimension, records⟩ := exists_insertMany uniform index.nodup_ids
  obtain rfl : loaded = index := eq_of_records dimension records
  have all : loaded.records.mapM IndexRecord.reread = some loaded.records := by
    rw [mapM_eq_some_iff, List.forall₂_same]
    exact same
  unfold load
  rw [decode?_save_eq counted, all]
  simp only [Option.map_some, inserted]

/-- The text of an index begins with its dimension, if that is set. -/
theorem save_eq (index : VectorIndex) :
    index.save = "\x7b\"dimension\":" ++ (index.dimension.map toString).getD "null" ++
      ",\"records\":" ++ (Json.array (index.records.map IndexRecord.encode)).render ++ "\x7d" := by
  have keys : quote "dimension" = "\"dimension\"" ∧ quote "records" = "\"records\"" := by decide
  have dimension : render ((index.dimension.map Json.ofNat).getD .null) =
      (index.dimension.map toString).getD "null" := by
    cases index.dimension <;> rfl
  have opening : "\x7b\"dimension\":" = "\x7b" ++ "\"dimension\"" ++ ":" := by decide
  have middle : ",\"records\":" = "," ++ "\"records\"" ++ ":" := by decide
  rw [save, render, keys.1, renderMembers, keys.2, renderMembers, dimension, opening, middle]
  simp only [String.append_assoc, String.append_empty]

/-- However an index comes about and whatever is done with it: as long as all numbers of all vectors
are finite and are read as they were written, and so are the metadata, an index that is saved is the
one that is loaded, with the same dimension, the same records in the same order and the same answers.
A dimension that is not set is written as `null`. -/
theorem load_save_faithful (origin : Origin) {start : VectorIndex}
    (opens : origin.index? = some start) (steps : List Step)
    (counted : ∀ n ∈ (start.afterAll steps).dimension, n < UInt64.size)
    (finite : ∀ record ∈ (start.afterAll steps).records, ∀ x ∈ record.embedding, x.isFinite = true)
    (kept : ∀ record ∈ (start.afterAll steps).records, record.Kept) :
    let index := start.afterAll steps
    (index.save = "\x7b\"dimension\":" ++ (index.dimension.map toString).getD "null" ++
      ",\"records\":" ++ (Json.array (index.records.map IndexRecord.encode)).render ++ "\x7d") ∧
      ∃ loaded, load index.save = .ok loaded ∧
        loaded.dimension = index.dimension ∧ loaded.records = index.records ∧
        (∀ id, loaded.get? id = index.get? id) ∧
        (∀ ids, loaded.removeUnder ids = index.removeUnder ids) ∧
        ∀ vector count, loaded.query vector count = index.query vector count := by
  intro index
  have uniform : index.Uniform := ((Origin.mirrors opens).afterAll steps).uniform
  have same : ∀ record ∈ index.records, record.reread = some record :=
    fun record listed => (kept record listed).reread_eq (finite record listed)
  exact ⟨index.save_eq, index, load_save_of_reread uniform counted same, rfl, rfl, fun _ => rfl,
    fun _ => rfl, fun _ _ => rfl⟩

/-- The largest number of 32 bits, the smallest one and a zero with a sign, in records of which one is
put in the place of another. -/
theorem load_save_faithful_extremes :
    let vectors := [[Float32.ofBits 0x7F7FFFFF, Float32.ofBits 0x80000001], [-0.0, 0.1]]
    let records : List IndexRecord := [⟨"a", "", [("line", Json.ofNat 3)], vectors[0]⟩,
      ⟨"b", "", [], vectors[1]⟩, ⟨"a", "again", [], vectors[1]⟩]
    let index := (withDimension 2).afterAll [.insertMany records]
    ∃ loaded, load index.save = .ok loaded ∧ loaded.records = index.records ∧
      loaded.get? "a" = index.get? "a" := by
  intro vectors records index
  have counted : ∀ n ∈ index.dimension, n < UInt64.size := by
    have set : index.dimension = some 2 := dimension_afterAll rfl _
    rw [set]
    decide
  have numbers : ∀ record ∈ records, ∀ x ∈ record.embedding, x.isFinite = true ∧ ReadsBack x := by
    unfold ReadsBack
    decide +kernel
  have lasting : ∀ record ∈ records, Lasts (maxDepth - 3) (.object record.metadata) := by
    simp only [records, List.forall_mem_cons]
    refine ⟨.object (List.pairwise_singleton ..) ?_, .object .nil (List.forall_mem_nil _),
      .object .nil (List.forall_mem_nil _), List.forall_mem_nil _⟩
    exact List.forall_mem_singleton.mpr (.natural (by decide))
  have kept : ∀ record ∈ index.records, record.Kept := by
    intro record member
    have listed := mem_of_afterAll_insertMany member
    exact ⟨IndexRecord.rereadMetadata_of_lasts (lasting record listed),
      fun x number _ => (numbers record listed x number).2⟩
  have finite : ∀ record ∈ index.records, ∀ x ∈ record.embedding, x.isFinite = true :=
    fun record member x number => (numbers record (mem_of_afterAll_insertMany member) x number).1
  obtain ⟨_, loaded, ran, _, same, found, _⟩ :=
    load_save_faithful (.withDimension 2) rfl [.insertMany records] counted finite kept
  exact ⟨loaded, ran, same, found "a"⟩

end VectorIndex

end CodeAtlas

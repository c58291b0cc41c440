import CodeAtlas.Proofs.Engine.Again

namespace CodeAtlas

/-- A file takes a chunk of another one for its own: the path of the other one goes on with a colon
after that of the file, or the file is named after the path and the first line of the chunk. -/
def Chunk.IsTakenBy (chunk : Chunk) (file : String) : Prop :=
  chunk.path.startsWith (Engine.recordStart file) = true ∨
    file = chunk.path ++ ":" ++ toString chunk.firstLine

theorem Chunk.id_startsWith_iff {chunk : Chunk} {file : String} (other : chunk.path ≠ file) :
    chunk.id.startsWith (Engine.recordStart file) = true ↔ chunk.IsTakenBy file := by
  rw [id_eq, Engine.recordStart, Text.startsWith_colon_iff (colon_not_mem_toString _)
    (colon_not_mem_toString _), or_iff_right other.symm]
  rfl

/-- It takes a colon in the path of one of the two files. -/
theorem Chunk.not_isTakenBy {chunk : Chunk} {file : String} (plain : ':' ∉ chunk.path.toList)
    (plain' : ':' ∉ file.toList) : ¬ chunk.IsTakenBy file := by
  rintro (begins | rfl)
  · rw [Engine.recordStart, String.startsWith_string_iff] at begins
    exact plain (begins.subset (by simp [String.toList_append]))
  · exact plain' (by simp [String.toList_append])

namespace Engine

variable {options : ChunkOptions} {read : String → Reading} {paths : List String} {engine : Engine}
  {indexing after : Indexing} {file : String} {record : IndexRecord}

/-- Whether a record belongs to a file that is not listed. -/
def isUnlisted (paths : List String) (record : IndexRecord) : Bool :=
  record.path?.any fun path => !paths.contains path

/-- The records of files that are not listed. -/
def unlisted (paths : List String) (records : List IndexRecord) : List IndexRecord :=
  records.filter (isUnlisted paths)

theorem isUnlisted_iff {chunk : Chunk} (made : record.IsOf chunk) :
    isUnlisted paths record = true ↔ chunk.path ∉ paths := by
  obtain ⟨vector, rfl⟩ := made
  simp [isUnlisted, IndexRecord.path?_ofChunk]

theorem unlisted_of_listed {records : List IndexRecord} {chunks : List Chunk}
    (made : List.Forall₂ IndexRecord.IsOf records chunks)
    (listed : ∀ chunk ∈ chunks, chunk.path ∈ paths) : unlisted paths records = [] := by
  refine List.filter_eq_nil_iff.mpr fun record member unlisted => ?_
  obtain ⟨chunk, cut, _, said⟩ := IndexRecord.exists_of_mem made member
  simp [isUnlisted, said, listed chunk cut] at unlisted

/-- A file that is looked at takes from the others what begins with its path and a colon, unless it is
left out. -/
theorem unlisted_take {clock : Nat → Nat} (listed : file ∈ paths)
    (config : indexing.engine.config.chunks = options)
    (taken : indexing.take clock read file = (.ok (), after)) :
    unlisted paths after.engine.retriever.index.records =
      (unlisted paths indexing.engine.retriever.index.records).filter fun record =>
        !isReplaced (indexable options read [file]) record := by
  unfold Indexing.take at taken
  rw [config] at taken
  cases cut : chunksOf options read file with
  | error failure =>
    rw [cut] at taken
    cases failure with
    | error reason =>
      obtain rfl := (Prod.mk.inj taken).2
      have out : indexable options read [file] = [] := by
        simp [indexable, cut, Except.isOk, Except.toBool]
      rw [out]
      exact (List.filter_eq_self.mpr fun _ _ => rfl).symm
    | overflow => cases taken
  | ok chunks =>
    rw [cut] at taken
    obtain ⟨distinct, own⟩ := chunksOf_pairwise cut
    have inside : indexable options read [file] = [file] := by
      simp [indexable, cut, Except.isOk, Except.toBool]
    have fresh := unlisted_of_listed (indexing.isOf_fresh clock chunks)
      fun chunk member => own chunk member ▸ listed
    rw [Indexing.takeChunks_records distinct own taken, inside]
    unfold unlisted at fresh ⊢
    rw [List.filter_append, fresh, List.append_nil, List.filter_comm]
    simp only [isReplaced, List.any_cons, List.any_nil, Bool.or_false]

theorem unlisted_takeAll {clock : Nat → Nat → Nat} {i : Nat} {files : List String}
    (listed : ∀ file ∈ files, Path.normalize file ∈ paths)
    (config : indexing.engine.config.chunks = options)
    (taken : Indexing.takeAll clock read i files indexing = (.ok (), after)) :
    unlisted paths after.engine.retriever.index.records =
      (unlisted paths indexing.engine.retriever.index.records).filter fun record =>
        !isReplaced (indexable options read (files.map Path.normalize)) record := by
  induction files generalizing i indexing with
  | nil =>
    obtain rfl := (Prod.mk.inj taken).2
    exact (List.filter_eq_self.mpr fun _ _ => rfl).symm
  | cons file files ih =>
    obtain ⟨here, later⟩ := List.forall_mem_cons.mp listed
    have split : indexable options read ((file :: files).map Path.normalize) =
        indexable options read [Path.normalize file] ++
          indexable options read (files.map Path.normalize) :=
      List.filter_append [Path.normalize file] (files.map Path.normalize)
    obtain ⟨next, first, kept, rest⟩ := Indexing.takeAll_cons taken
    rw [ih later ((congrArg Config.chunks kept).trans config) rest,
      unlisted_take here config first, List.filter_filter, split]
    refine List.filter_congr fun record _ => ?_
    rw [isReplaced, isReplaced, isReplaced, List.any_append, Bool.not_or, Bool.and_comm]

/-- The files that indexing replaces the records of: those that it comes to and does not leave out. -/
def replacing (options : ChunkOptions) (read : String → Reading) (files : List String) : List String :=
  indexable options read ((reached options read files).map Path.normalize)

theorem mem_of_mem_replacing {files : List String} (listed : file ∈ replacing options read files) :
    file ∈ files.map Path.normalize :=
  List.map_subset _ reached_subset (List.mem_filter.mp listed).1

theorem unlisted_index (fits : engine.Fits) (clock : Nat → Nat → Nat) (read : String → Reading)
    (files : List String) :
    unlisted (files.map Path.normalize) (engine.indexDuring clock read files).2.retriever.index.records =
      (unlisted (files.map Path.normalize) engine.retriever.index.records).filter fun record =>
        !isReplaced (replacing engine.config.chunks read files) record := by
  have start : (⟨engine, 0, 0, []⟩ : Indexing).engine.Fits := fits
  obtain ⟨after, taken, _, whole⟩ := start.takeAll clock read 0 files
  have settings : (⟨engine, 0, 0, []⟩ : Indexing).engine.config.chunks = engine.config.chunks := rfl
  rw [indexDuring_engine, whole]
  exact unlisted_takeAll (fun file listed => List.mem_map_of_mem (reached_subset listed)) settings taken

/-- An operation that indexes files. -/
def Operation.isIndexing : Operation → Bool
  | .index _ _ => true
  | _ => false

theorem Operation.isOwn_of_isIndexing {operation : Operation} (indexing : operation.isIndexing = true) :
    operation.isOwn = true := by
  cases operation with
  | restore | loadEmbeddings => cases indexing
  | build | index | search | ask => rfl

/-- All records are of chunks. -/
def HoldsChunks (engine : Engine) : Prop :=
  ∀ record ∈ engine.retriever.index.records, ∃ chunk, record.IsOf chunk

theorem new_holdsChunks (config : Config) (provider : Option Provider) :
    (new config provider).HoldsChunks :=
  fun _ nothing => nomatch nothing

namespace HoldsChunks

theorem takeChunks (holds : indexing.engine.HoldsChunks) (clock : Nat → Nat) (path : String)
    (chunks : List Chunk) : (indexing.takeChunks clock path chunks).2.engine.HoldsChunks := by
  have left : ∀ record ∈
      (indexing.engine.retriever.index.removeUnder (recordStart path)).2.records,
      ∃ chunk, record.IsOf chunk :=
    fun record member => holds record (VectorIndex.mem_removeUnder.mp member).1
  unfold Indexing.takeChunks
  split
  · exact left
  · dsimp only
    split
    · next index inserted =>
      intro record member
      rcases VectorIndex.mem_of_insertMany inserted member with before | new
      · exact left record before
      · obtain ⟨chunk, vector, rfl, _⟩ := IndexRecord.of_mem_zipWith_ofChunk new
        exact ⟨chunk, vector, rfl⟩
    · exact left

theorem take (holds : indexing.engine.HoldsChunks) (clock : Nat → Nat) (read : String → Reading)
    (path : String) : (indexing.take clock read path).2.engine.HoldsChunks := by
  unfold Indexing.take
  split
  · exact holds.takeChunks clock path _
  · exact holds
  · exact holds

theorem takeAll (holds : indexing.engine.HoldsChunks) (clock : Nat → Nat → Nat)
    (read : String → Reading) (i : Nat) (files : List String) :
    (Indexing.takeAll clock read i files indexing).2.engine.HoldsChunks :=
  Indexing.takeAll_induction (fun file _ _ clock holds => take holds clock read (Path.normalize file))
    clock i holds

theorem index (holds : engine.HoldsChunks) (clock : Nat → Nat → Nat) (read : String → Reading)
    (files : List String) : (engine.indexDuring clock read files).2.HoldsChunks := by
  have start : (⟨engine, 0, 0, []⟩ : Indexing).engine.HoldsChunks := holds
  rw [indexDuring_engine]
  exact start.takeAll clock read 0 files

theorem duringAll (holds : engine.HoldsChunks) {history : List Event}
    (indexing : ∀ event ∈ history, event.2.isIndexing = true) :
    (engine.duringAll history).HoldsChunks := by
  induction history generalizing engine with
  | nil => exact holds
  | cons event history ih =>
    obtain ⟨first, rest⟩ := List.forall_mem_cons.mp indexing
    have next : (engine.during event.1 event.2).HoldsChunks := by
      obtain ⟨clock, operation⟩ := event
      cases operation with
      | index read files => exact holds.index clock read files
      | build | restore | loadEmbeddings | search | ask => cases first
    exact ih next rest

end HoldsChunks

/-- What goes of the records of other files is what a listed file takes for its own. -/
theorem unlisted_index_eq_iff (holds : engine.HoldsChunks) (fits : engine.Fits)
    (clock : Nat → Nat → Nat) (read : String → Reading) (files : List String) :
    let paths := files.map Path.normalize
    let before := unlisted paths engine.retriever.index.records
    unlisted paths (engine.indexDuring clock read files).2.retriever.index.records = before ↔
      ∀ record ∈ before, ∀ chunk, record.IsOf chunk →
        ∀ file ∈ replacing engine.config.chunks read files, ¬ chunk.IsTakenBy file := by
  intro paths before
  have taken {record : IndexRecord} (member : record ∈ before) {chunk : Chunk}
      (made : record.IsOf chunk) {file : String}
      (listed : file ∈ replacing engine.config.chunks read files) :
      record.id.startsWith (recordStart file) = true ↔ chunk.IsTakenBy file := by
    have outside := (isUnlisted_iff made).mp (List.mem_filter.mp member).2
    have other : chunk.path ≠ file := fun same => outside (same ▸ mem_of_mem_replacing listed)
    obtain ⟨vector, rfl⟩ := made
    exact Chunk.id_startsWith_iff other
  rw [unlisted_index fits clock read files, List.filter_eq_self]
  constructor
  · intro stays record member chunk made file listed takes
    have gone := isReplaced_iff.mpr ⟨file, listed, (taken member made listed).mpr takes⟩
    have stays := stays record member
    rw [gone] at stays
    cases stays
  · intro spared record member
    obtain ⟨chunk, made⟩ := holds record (List.mem_filter.mp member).1
    rw [Bool.not_eq_true', ← Bool.not_eq_true, isReplaced_iff]
    rintro ⟨file, listed, begins⟩
    exact spared record member chunk made file listed ((taken member made listed).mp begins)

/-- Whatever an engine indexed before, indexing goes through if the lines of the files can be counted, and
of the records of files that are not listed those stay, in their order and as they were, whose ids do not
begin with the path of a listed file and a colon, files that are left out or not come to apart. So all
of them stay exactly if no listed file takes a chunk of another one for its own; for which there must be
a colon in a path. -/
theorem index_spares (config : Config) (provider : Option Provider) (history : List Event)
    (indexing : ∀ event ∈ history, event.2.isIndexing = true) (clock : Nat → Nat → Nat)
    (read : String → Reading) (files : List String) :
    let engine := (new config provider).duringAll history
    let run := engine.indexDuring clock read files
    let paths := files.map Path.normalize
    let indexed := replacing config.chunks read files
    let before := unlisted paths engine.retriever.index.records
    let after := unlisted paths run.2.retriever.index.records
    Ends config.chunks read files run.1 ∧
      (∀ record ∈ engine.retriever.index.records, ∃ chunk, record.IsOf chunk) ∧
      after = before.filter (fun record => !isReplaced indexed record) ∧
      (after = before ↔ ∀ record ∈ before, ∀ chunk, record.IsOf chunk →
        ∀ file ∈ indexed, ¬ chunk.IsTakenBy file) ∧
      ((∀ file ∈ indexed, ':' ∉ file.toList) →
        (∀ record ∈ before, ∀ path, record.path? = some path → ':' ∉ path.toList) →
        after = before) := by
  intro engine run paths indexed before after
  have own : ∀ event ∈ history, event.2.isOwn = true := fun event member =>
    Operation.isOwn_of_isIndexing (indexing event member)
  have settings : engine.config = config := (keeps_duringAll _ own).config
  have fits : engine.Fits := ((new_agrees config provider).duringAll history).fits
  have holds : engine.HoldsChunks := (new_holdsChunks config provider).duringAll indexing
  have left := unlisted_index fits clock read files
  have stays := unlisted_index_eq_iff holds fits clock read files
  have ends := (fits.index clock read files).1
  rw [settings] at left stays ends
  refine ⟨ends, holds, left, stays, fun plain plain' => ?_⟩
  refine stays.mpr fun record member chunk made file listed => ?_
  obtain ⟨vector, rfl⟩ := made
  exact Chunk.not_isTakenBy (plain' _ member _ (IndexRecord.path?_ofChunk chunk vector))
    (plain file listed)

/-- The ids of records on a new engine are those of the chunks alone. -/
theorem ids_unlisted_index_new (config : Config) (provider : Option Provider)
    (clock : Nat → Nat → Nat) (read : String → Reading) (files paths : List String) :
    (unlisted paths
        ((new config provider).indexDuring clock read files).2.retriever.index.records).map (·.id) =
      (unlisted paths (reindexed (IndexRecord.ofChunk · []) config.chunks read
        ((reached config.chunks read files).map Path.normalize) [])).map (·.id) := by
  have made := ((makes_bare _).index trivial (new_fits config provider) clock
    (List.Subset.refl (textsOf config.chunks read (files.map Path.normalize)))).2
  have start : (new config provider).retriever.index.records.map bare = [] := rfl
  rw [start] at made
  have settings : (new config provider).config = config := rfl
  rw [settings] at made
  rw [← made, unlisted, unlisted, List.filter_map, List.map_map]
  rfl

/-- Which ids are left after records are replaced is a matter of the ids alone. -/
theorem ids_filter_isReplaced (files : List String) (records : List IndexRecord) :
    (records.filter fun record => !isReplaced files record).map (·.id) =
      (records.map (·.id)).filter fun id => !files.any fun file => id.startsWith (recordStart file) := by
  rw [List.filter_map]
  rfl

theorem duringAll_index (engine : Engine) (clock : Nat → Nat → Nat) (read : String → Reading)
    (files : List String) :
    engine.duringAll [(clock, .index read files)] = (engine.indexDuring clock read files).2 := rfl

/-- Two files are indexed, and then one that is named after the first of them and its first line. It
takes the chunk that begins there, and leaves the other file alone. -/
theorem index_spares_one_of_two :
    let read : String → Reading := fun _ => .text "one\n"
    let history : List Event := [(fun i j => i + j, .index read ["a.txt", "b.txt"])]
    let engine := (new .default none).duringAll history
    let run := engine.indexDuring (fun _ j => j) read ["a.txt:1"]
    (∀ event ∈ history, event.2.isIndexing = true) ∧
      (unlisted ["a.txt:1"] engine.retriever.index.records).map (·.id) = ["a.txt:1:1", "b.txt:1:1"] ∧
      (unlisted ["a.txt:1"] run.2.retriever.index.records).map (·.id) = ["b.txt:1:1"] := by
  intro read history
  dsimp only
  have indexing : ∀ event ∈ history, event.2.isIndexing = true := by decide
  have before : (unlisted ["a.txt:1"]
      ((new .default none).duringAll history).retriever.index.records).map (·.id) =
        ["a.txt:1:1", "b.txt:1:1"] := by
    rw [duringAll_index, ids_unlisted_index_new]
    decide +kernel
  have paths : ["a.txt:1"].map Path.normalize = ["a.txt:1"] := by decide
  have listed : replacing Config.default.chunks read ["a.txt:1"] = ["a.txt:1"] := by decide +kernel
  obtain ⟨_, _, left, _⟩ := index_spares .default none history indexing (fun _ j => j) read ["a.txt:1"]
  rw [paths, listed] at left
  refine ⟨indexing, before, ?_⟩
  rw [left, ids_filter_isReplaced, before]
  decide +kernel

/-- A file is indexed, and then another one whose path is that of the first up to a colon. Nothing is
left of the first. -/
theorem index_takes_unlisted :
    let read : String → Reading := fun _ => .text "one\n"
    let before := ((new .default none).indexDuring (fun i j => i + j) read ["a:b"]).2
    let run := before.indexDuring (fun _ j => j) read ["a"]
    (∃ report, run.1 = .ok report) ∧
      (unlisted ["a"] before.retriever.index.records).map (·.id) = ["a:b:1:1"] ∧
      unlisted ["a"] run.2.retriever.index.records = [] := by
  intro read
  dsimp only
  have ids : (unlisted ["a"] ((new .default none).indexDuring (fun i j => i + j) read
      ["a:b"]).2.retriever.index.records).map (·.id) = ["a:b:1:1"] := by
    rw [ids_unlisted_index_new]
    decide +kernel
  have kept : Keeps (new .default none) _ := keeps_index _ (fun i j => i + j) read ["a:b"]
  have fits := ((new_fits .default none).index (fun i j => i + j) read ["a:b"]).2
  generalize ((new .default none).indexDuring (fun i j => i + j) read ["a:b"]).2 = before at *
  have paths : ["a"].map Path.normalize = ["a"] := by decide
  have listed : replacing before.config.chunks read ["a"] = ["a"] := by
    rw [kept.config]
    decide +kernel
  have cut : AllCut before.config.chunks read (["a"].map Path.normalize) := by
    rw [kept.config]
    decide +kernel
  have left := unlisted_index fits (fun _ j => j) read ["a"]
  rw [paths, listed] at left
  refine ⟨(fits.index _ _ _).1.ok_iff.mpr cut, ids, (List.map_eq_nil_iff (f := (·.id))).mp ?_⟩
  rw [left, ids_filter_isReplaced, ids]
  decide +kernel

end Engine

end CodeAtlas

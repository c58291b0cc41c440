import CodeAtlas.Proofs.Engine.Alone

namespace CodeAtlas.Engine

variable {options : ChunkOptions} {read : String → Reading} {make : Chunk → IndexRecord}
  {paths : List String}

/-- What records files leave, if `make` tells the record of a chunk. -/
def reindexed (make : Chunk → IndexRecord) (options : ChunkOptions) (read : String → Reading) :
    List String → List IndexRecord → List IndexRecord
  | [], records => records
  | path :: paths, records =>
    match chunksOf options read path with
    | .ok chunks => reindexed make options read paths
        (records.filter (fun record => !record.id.startsWith (recordStart path)) ++ chunks.map make)
    | .error _ => reindexed make options read paths records

theorem isReplaced_cons (path : String) (paths : List String) (record : IndexRecord) :
    isReplaced (path :: paths) record =
      (record.id.startsWith (recordStart path) || isReplaced paths record) := by
  simp [isReplaced]

/-- What comes first stays first. -/
theorem reindexed_append (paths : List String) (first second : List IndexRecord) :
    reindexed make options read paths (first ++ second) =
      first.filter (fun record => !isReplaced (indexable options read paths) record) ++
        reindexed make options read paths second := by
  induction paths generalizing first second with
  | nil => simp [reindexed, indexable, isReplaced]
  | cons path paths ih =>
    cases cut : chunksOf options read path with
    | error reason =>
      have out : indexable options read (path :: paths) = indexable options read paths := by
        simp [indexable, cut, Except.isOk, Except.toBool]
      simp only [reindexed, cut, out, ih]
    | ok chunks =>
      have inside : indexable options read (path :: paths) =
          path :: indexable options read paths := by
        simp [indexable, cut, Except.isOk, Except.toBool]
      simp only [reindexed, cut, inside, List.filter_append, List.append_assoc, ih,
        List.filter_filter, isReplaced_cons, Bool.not_or, Bool.and_comm]

/-- A record was there before, or it is of a chunk of a file. -/
theorem mem_reindexed {records : List IndexRecord} {record : IndexRecord}
    (member : record ∈ reindexed make options read paths records) :
    record ∈ records ∨
      ∃ path ∈ paths, ∃ chunk ∈ chunksNow options read path, record = make chunk := by
  induction paths generalizing records with
  | nil => exact .inl member
  | cons path paths ih =>
    have later : ∀ {records}, record ∈ reindexed make options read paths records →
        record ∈ records ∨
          ∃ other ∈ path :: paths, ∃ chunk ∈ chunksNow options read other, record = make chunk := by
      intro records member
      rcases ih member with before | ⟨other, listed, made⟩
      · exact .inl before
      · exact .inr ⟨other, List.mem_cons_of_mem path listed, made⟩
    cases cut : chunksOf options read path with
    | error reason =>
      simp only [reindexed, cut] at member
      exact later member
    | ok chunks =>
      simp only [reindexed, cut] at member
      rcases later member with before | new
      · rcases List.mem_append.mp before with old | fresh
        · exact .inl (List.mem_filter.mp old).1
        · obtain ⟨chunk, listed, rfl⟩ := List.mem_map.mp fresh
          rw [← chunksNow_eq cut] at listed
          exact .inr ⟨path, List.mem_cons_self, chunk, listed, rfl⟩
      · exact .inr new

/-- What files leave of nothing, they would replace. -/
theorem isReplaced_of_mem_reindexed (ids : ∀ chunk, (make chunk).id = chunk.id)
    {record : IndexRecord} (member : record ∈ reindexed make options read paths []) :
    isReplaced (indexable options read paths) record = true := by
  obtain ⟨path, listed, chunk, now, rfl⟩ := (mem_reindexed member).resolve_left List.not_mem_nil
  have taken : (chunksOf options read path).isOk = true := by
    by_contra out
    rw [chunksNow_of_leftOut (Bool.eq_false_iff.mpr out)] at now
    cases now
  refine isReplaced_iff.mpr ⟨path, List.mem_filter.mpr ⟨listed, taken⟩, ?_⟩
  rw [ids, ← own_of_mem_chunksNow now]
  exact chunk.id_startsWith

theorem reindexed_reindexed (ids : ∀ chunk, (make chunk).id = chunk.id) (paths : List String)
    (records : List IndexRecord) :
    reindexed make options read paths (reindexed make options read paths records) =
      reindexed make options read paths records := by
  let stays (record : IndexRecord) := !isReplaced (indexable options read paths) record
  have split : ∀ first, reindexed make options read paths first =
      first.filter stays ++ reindexed make options read paths [] := by
    intro first
    have appended : reindexed make options read paths (first ++ []) = _ :=
      reindexed_append paths first []
    rwa [List.append_nil] at appended
  have gone : (reindexed make options read paths []).filter stays = [] := by
    refine List.filter_eq_nil_iff.mpr fun record member => ?_
    simp [stays, isReplaced_of_mem_reindexed ids member]
  rw [split (reindexed make options read paths records), split records, List.filter_append, gone,
    List.append_nil, List.filter_filter]
  simp only [Bool.and_self]

/-- What the records that an embedder gives to chunks look like, as far as a view of them shows, for
as long as the embedder is in order. -/
structure Makes (view : IndexRecord → IndexRecord) (make : Chunk → IndexRecord)
    (inOrder : Embedder → Prop) (known : List String) : Prop where
  viewed : ∀ record, (view record).id = record.id
  ids : ∀ chunk, (make chunk).id = chunk.id
  stays : ∀ embedder clock texts, inOrder embedder → texts ⊆ known →
    inOrder (embedder.embedDuring clock texts).2
  made : ∀ (embedder : Embedder) clock (chunks : List Chunk), inOrder embedder →
    chunks.map (·.content) ⊆ known →
    (List.zipWith IndexRecord.ofChunk chunks
      (embedder.embedDuring clock (chunks.map (·.content))).1).map view = chunks.map make

/-- A record without its vector. -/
def bare (record : IndexRecord) : IndexRecord := { record with embedding := [] }

theorem makes_bare (known : List String) :
    Makes bare (IndexRecord.ofChunk · []) (fun _ => True) known where
  viewed _ := rfl
  ids _ := rfl
  stays _ _ _ _ _ := trivial
  made embedder clock chunks _ _ := by
    have shape := (embedder.embedDuring_shape clock (chunks.map (·.content))).1
    rw [List.length_map] at shape
    rw [← List.map_uncurry_zip_eq_zipWith, List.map_map]
    conv => rhs; rw [← List.map_fst_zip (Nat.le_of_eq shape.symm), List.map_map]
    rfl

/-- With hash vectors the whole record depends on the chunk alone. -/
theorem makes_hashes {known : List String} (differ : Embedder.KeysDiffer known) (dimension : Nat) :
    Makes id (fun chunk => IndexRecord.ofChunk chunk (Embedding.hash dimension chunk.content))
      (fun embedder => embedder.HoldsHashes known ∧ embedder.dimension = dimension) known where
  viewed _ := rfl
  ids _ := rfl
  stays embedder clock texts inOrder listed := by
    have asked : (Embedder.Step.embed clock texts).texts ⊆ known := listed
    exact ⟨inOrder.1.after asked, (dimension_embedDuring embedder clock texts).trans inOrder.2⟩
  made embedder clock chunks inOrder listed := by
    obtain ⟨hashes, rfl⟩ := inOrder
    rw [hashes.embedDuring differ listed, List.map_id, List.map_map, List.zipWith_map_right,
      List.zipWith_self]
    rfl

variable {view : IndexRecord → IndexRecord} {inOrder : Embedder → Prop} {known : List String}
  {indexing after : Indexing}

theorem Makes.take (makes : Makes view make inOrder known) {clock : Nat → Nat} {path : String}
    (config : indexing.engine.config.chunks = options) (embedder : inOrder indexing.engine.embedder)
    (listed : (chunksNow options read path).map (·.content) ⊆ known)
    (taken : indexing.take clock read path = (.ok (), after)) (paths : List String) :
    inOrder after.engine.embedder ∧
      reindexed make options read (path :: paths)
          (indexing.engine.retriever.index.records.map view) =
        reindexed make options read paths (after.engine.retriever.index.records.map view) := by
  unfold Indexing.take at taken
  rw [config] at taken
  cases cut : chunksOf options read path with
  | error failure =>
    rw [cut] at taken
    cases failure with
    | error reason =>
      obtain rfl := (Prod.mk.inj taken).2
      refine ⟨embedder, ?_⟩
      simp only [reindexed, cut]
      rfl
    | overflow => cases taken
  | ok chunks =>
    rw [cut] at taken
    rw [chunksNow_eq cut] at listed
    obtain ⟨distinct, own⟩ := chunksOf_pairwise cut
    have records := Indexing.takeChunks_records distinct own taken
    have next := indexing.takeChunks_embedder clock path chunks
    have ran : indexing.takeChunks clock path chunks = (.ok (), after) := taken
    rw [ran] at next
    refine ⟨next ▸ makes.stays _ _ _ embedder listed, ?_⟩
    rw [records, List.map_append, makes.made _ _ _ embedder listed]
    simp only [reindexed, cut, List.filter_map, Function.comp_def, makes.viewed]

theorem Makes.takeAll (makes : Makes view make inOrder known) {clock : Nat → Nat → Nat} {i : Nat}
    {files : List String} (config : indexing.engine.config.chunks = options)
    (embedder : inOrder indexing.engine.embedder)
    (listed : textsOf options read (files.map Path.normalize) ⊆ known)
    (taken : Indexing.takeAll clock read i files indexing = (.ok (), after)) :
    inOrder after.engine.embedder ∧
      after.engine.retriever.index.records.map view =
        reindexed make options read (files.map Path.normalize)
          (indexing.engine.retriever.index.records.map view) := by
  induction files generalizing i indexing with
  | nil =>
    obtain rfl := (Prod.mk.inj taken).2
    exact ⟨embedder, rfl⟩
  | cons file files ih =>
    obtain ⟨here, later⟩ := List.append_subset.mp listed
    obtain ⟨next, first, kept, taken⟩ := Indexing.takeAll_cons taken
    obtain ⟨embedder, records⟩ := makes.take config embedder here first (files.map Path.normalize)
    have rest := ih ((congrArg Config.chunks kept).trans config) embedder later taken
    exact ⟨rest.1, rest.2.trans records.symm⟩

theorem textsOf_reached_subset {files : List String} :
    textsOf options read ((reached options read files).map Path.normalize) ⊆
      textsOf options read (files.map Path.normalize) := by
  intro text member
  obtain ⟨path, listed, inside⟩ := List.mem_flatMap.mp member
  exact List.mem_flatMap.mpr ⟨path, List.map_subset _ reached_subset listed, inside⟩

/-- The records after indexing are those that the files leave that the program comes to. -/
theorem Makes.index {engine : Engine} (makes : Makes view make inOrder known)
    (embedder : inOrder engine.embedder) (fits : engine.Fits) (clock : Nat → Nat → Nat)
    {files : List String}
    (listed : textsOf engine.config.chunks read (files.map Path.normalize) ⊆ known) :
    inOrder (engine.indexDuring clock read files).2.embedder ∧
      (engine.indexDuring clock read files).2.retriever.index.records.map view =
        reindexed make engine.config.chunks read
          ((reached engine.config.chunks read files).map Path.normalize)
          (engine.retriever.index.records.map view) := by
  have start : (⟨engine, 0, 0, []⟩ : Indexing).engine.Fits := fits
  obtain ⟨after, taken, _, whole⟩ := start.takeAll clock read 0 files
  have settings : (⟨engine, 0, 0, []⟩ : Indexing).engine.config.chunks = engine.config.chunks := rfl
  rw [indexDuring_engine, whole]
  exact makes.takeAll settings embedder (List.Subset.trans textsOf_reached_subset listed) taken

/-- Two runs of indexing over the same files leave the same, as far as the view shows. -/
theorem Makes.index_index {engine : Engine} (makes : Makes view make inOrder known)
    (embedder : inOrder engine.embedder) (fits : engine.Fits) (first second : Nat → Nat → Nat)
    {files : List String}
    (listed : textsOf engine.config.chunks read (files.map Path.normalize) ⊆ known) :
    let once := (engine.indexDuring first read files).2
    (once.indexDuring second read files).2.retriever.index.records.map view =
      once.retriever.index.records.map view := by
  intro once
  have settings : once.config = engine.config := (keeps_index engine first read files).config
  obtain ⟨embedder, records⟩ := makes.index embedder fits first listed
  have again := (makes.index embedder (fits.index first read files).2 second
    (settings.symm ▸ listed)).2
  rw [settings] at again
  rw [again, records]
  exact reindexed_reindexed makes.ids _ _

/-- Whatever was indexed before, indexing files goes through if their lines can be counted, and going
through them once more as they are changes nothing: the dimension and the records stay, in their order.
If the program aborts at a file it does so each time. For the vectors this is as certain as that the
keys of the texts differ. -/
theorem index_again (config : Config) (history : List Event)
    (own : ∀ event ∈ history, event.2.isOwn = true) (first second : Nat → Nat → Nat)
    (read : String → Reading) (files : List String) :
    let engine := (new config none).duringAll history
    let once := engine.indexDuring first read files
    let twice := once.2.indexDuring second read files
    let texts := historyTexts config.chunks history ++
      textsOf config.chunks read (files.map Path.normalize)
    Ends config.chunks read files once.1 ∧ Ends config.chunks read files twice.1 ∧
      twice.2.retriever.index.dimension = once.2.retriever.index.dimension ∧
      twice.2.retriever.index.records.map bare = once.2.retriever.index.records.map bare ∧
      (Embedder.KeysDiffer texts → twice.2.retriever.index = once.2.retriever.index) := by
  intro engine once twice texts
  have kept : Keeps (new config none) engine := keeps_duringAll _ own
  have fits : engine.Fits := ((new_agrees config none).duringAll history).fits
  obtain ⟨ends, fits'⟩ := fits.index first read files
  have ends' := (fits'.index second read files).1
  have settings : engine.config = config := kept.config
  rw [(keeps_index engine first read files).config, settings] at ends'
  rw [settings] at ends
  have listed : textsOf engine.config.chunks read (files.map Path.normalize) ⊆ texts :=
    settings ▸ List.subset_append_right ..
  have set := (keeps_index engine first read files).set _ (kept.set _ rfl)
  have dimension : twice.2.retriever.index.dimension = once.2.retriever.index.dimension :=
    ((keeps_index once.2 second read files).set _ set).trans set.symm
  refine ⟨ends, ends', dimension,
    (makes_bare texts).index_index trivial fits first second listed, fun differ => ?_⟩
  have hashes : engine.HoldsHashes texts :=
    (new_holdsHashes config texts).duringAll own (List.subset_append_left ..)
  have records := (makes_hashes differ engine.embedder.dimension).index_index
    ⟨hashes.hashes, rfl⟩ fits first second listed
  simp only [List.map_id] at records
  exact VectorIndex.eq_of_records dimension records

/-- A file that is listed twice, and one that is not there. There is room for one vector only. -/
theorem index_again_listed_twice :
    let config := { Config.default with dimension := 0, embeddingCapacity := 1 }
    let history : List Event := [(fun i j => i + j, .search "one" 3)]
    let read : String → Reading := fun path => if path = "a.txt" then .text "one\n" else .missing
    let files := ["a.txt", "b.txt", "./a.txt"]
    let once := ((new config none).duringAll history).indexDuring (fun i j => i + j) read files
    (∀ event ∈ history, event.2.isOwn = true) ∧
      Embedder.KeysDiffer (historyTexts config.chunks history ++
        textsOf config.chunks read (files.map Path.normalize)) ∧
      (once.2.indexDuring (fun _ _ => 0) read files).2.retriever.index = once.2.retriever.index := by
  intro config history read files once
  have own : ∀ event ∈ history, event.2.isOwn = true := by decide
  have differ : Embedder.KeysDiffer (historyTexts config.chunks history ++
      textsOf config.chunks read (files.map Path.normalize)) :=
    Embedder.keysDiffer_of_nodup (by decide +kernel)
  have again := index_again config history own (fun i j => i + j) (fun _ _ => 0) read files
  exact ⟨own, differ, again.2.2.2.2 differ⟩

end CodeAtlas.Engine

import CodeAtlas.Proofs.Embedding.Transparent
import CodeAtlas.Proofs.Engine.Dimension
import CodeAtlas.Proofs.Engine.Reindexing

namespace CodeAtlas.Engine

/-- An operation that takes nothing up from an earlier engine. -/
def Operation.isOwn : Operation → Bool
  | .restore _ | .loadEmbeddings _ => false
  | _ => true

/-- The texts that indexing files embeds. -/
def textsOf (options : ChunkOptions) (read : String → Reading) (paths : List String) : List String :=
  paths.flatMap fun path => (chunksNow options read path).map (·.content)

/-- The texts that an operation embeds. -/
def Operation.texts (options : ChunkOptions) : Operation → List String
  | .index read files => textsOf options read (files.map Path.normalize)
  | .search query _ => [query]
  | _ => []

def historyTexts (options : ChunkOptions) (history : List Event) : List String :=
  history.flatMap (·.2.texts options)

variable {engine : Engine} {indexing : Indexing} {options : ChunkOptions} {known : List String}
  {read : String → Reading}

theorem Keeps.of_index {after : Engine} (config : after.config = engine.config)
    (provider : after.embedder.provider = engine.embedder.provider)
    (dimension : after.embedder.dimension = engine.embedder.dimension)
    (index : after.retriever.index = engine.retriever.index) : Keeps engine after := by
  refine ⟨config, provider, dimension, fun _ => ?_, ?_, ?_⟩
  · rw [index]
    exact id
  · rw [index]
    exact id
  · unfold KeepsPaths
    rw [index]
    exact id

theorem searchDuring_provider (engine : Engine) (clock : Nat → Nat) (query : String)
    (limit : Nat) :
    (engine.searchDuring clock query limit).2.embedder.provider = engine.embedder.provider := by
  unfold searchDuring
  split
  · exact congrArg (·.2.provider) (engine.embedder.embedDuring_eq clock [query])
  · rfl

theorem searchDuring_config (engine : Engine) (clock : Nat → Nat) (query : String) (limit : Nat) :
    (engine.searchDuring clock query limit).2.config = engine.config := by
  unfold searchDuring
  split <;> rfl

theorem askDuring_config (engine : Engine) (clock : Nat → Nat) (query : GraphQuery) (id : String) :
    (engine.askDuring clock query id).2.config = engine.config := by
  unfold askDuring
  split
  · rfl
  · split <;> rfl

theorem keeps_search (engine : Engine) (clock : Nat → Nat) (query : String) (limit : Nat) :
    Keeps engine (engine.searchDuring clock query limit).2 :=
  .of_index (engine.searchDuring_config clock query limit)
    (engine.searchDuring_provider clock query limit)
    (engine.searchDuring_dimension clock query limit)
    (congrArg Retriever.index (engine.searchDuring_retriever clock query limit))

theorem keeps_ask (engine : Engine) (clock : Nat → Nat) (query : GraphQuery) (id : String) :
    Keeps engine (engine.askDuring clock query id).2 := by
  obtain ⟨retriever, embedder⟩ := engine.askDuring_same clock query id
  exact .of_index (engine.askDuring_config clock query id) (congrArg Embedder.provider embedder)
    (congrArg Embedder.dimension embedder) (congrArg Retriever.index retriever)

theorem keeps_during (engine : Engine) (clock : Nat → Nat → Nat) {operation : Operation}
    (own : operation.isOwn = true) : Keeps engine (engine.during clock operation) := by
  cases operation with
  | build read files => exact .of_index rfl rfl rfl rfl
  | restore saved => cases own
  | loadEmbeddings text => cases own
  | index read files => exact keeps_index engine clock read files
  | search query limit => exact engine.keeps_search (clock 0) query limit
  | ask query id => exact engine.keeps_ask (clock 0) query id

theorem keeps_duringAll (engine : Engine) {history : List Event}
    (own : ∀ event ∈ history, event.2.isOwn = true) : Keeps engine (engine.duringAll history) := by
  induction history generalizing engine with
  | nil => exact .refl engine
  | cons event history ih =>
    obtain ⟨first, rest⟩ := List.forall_mem_cons.mp own
    exact (engine.keeps_during event.1 first).trans (ih (engine.during event.1 event.2) rest)

theorem Indexing.takeChunks_embedder (indexing : Indexing) (clock : Nat → Nat) (path : String)
    (chunks : List Chunk) :
    (indexing.takeChunks clock path chunks).2.engine.embedder =
      (indexing.engine.embedder.embedDuring clock (chunks.map (·.content))).2 := by
  unfold Indexing.takeChunks
  split
  · next none =>
    rw [List.isEmpty_iff.mp none]
    rfl
  · dsimp only
    split <;> rfl

/-- The engine has no provider, and holds hash vectors of known texts and nothing else. All of them
have the dimension that it computes. -/
structure HoldsHashes (engine : Engine) (known : List String) : Prop where
  hashes : engine.embedder.HoldsHashes known
  sized : ∀ key vector, engine.embedder.cache.Holds key vector →
    vector.length = engine.embedder.dimension

theorem HoldsHashes.congr {after : Engine} (holds : engine.HoldsHashes known)
    (same : after.embedder = engine.embedder) : after.HoldsHashes known :=
  ⟨same ▸ holds.hashes, same ▸ holds.sized⟩

/-- What is held is the hash vector of a text in the dimension of the engine. -/
theorem HoldsHashes.vector_eq (holds : engine.HoldsHashes known) {key : String} {vector : Embedding}
    (held : engine.embedder.cache.Holds key vector) :
    ∃ text ∈ known, key = EmbeddingCache.keyOf text ∧
      vector = Embedding.hash engine.embedder.dimension text := by
  obtain ⟨text, listed, dimension, keyed, rfl⟩ := holds.hashes.holds key vector held
  have length := holds.sized key _ held
  rw [Embedding.length_hash] at length
  exact ⟨text, listed, keyed, by rw [length]⟩

theorem HoldsHashes.embed {after : Engine} {texts : List String} (holds : engine.HoldsHashes known)
    (listed : texts ⊆ known) {clock : Nat → Nat}
    (embedder : after.embedder = (engine.embedder.embedDuring clock texts).2) :
    after.HoldsHashes known := by
  have asked : (Embedder.Step.embed clock texts).texts ⊆ known := listed
  refine ⟨embedder ▸ holds.hashes.after asked, fun key vector held => ?_⟩
  rw [embedder] at held ⊢
  rw [dimension_embedDuring]
  rcases Embedder.holds_of_embedDuring held with before | ⟨text, _, written⟩
  · exact holds.sized key vector before
  · rw [(Embedder.of_mem_written holds.hashes.alone written).2, Embedding.length_hash]

theorem chunksNow_eq {path : String} {chunks : List Chunk}
    (cut : chunksOf options read path = .ok chunks) : chunksNow options read path = chunks := by
  rw [chunksNow, cut]
  rfl

theorem HoldsHashes.take (hashes : indexing.engine.HoldsHashes known)
    (config : indexing.engine.config.chunks = options) {path : String}
    (listed : (chunksNow options read path).map (·.content) ⊆ known) (clock : Nat → Nat) :
    (indexing.take clock read path).2.engine.HoldsHashes known := by
  unfold Indexing.take
  rw [config]
  split
  · next chunks cut =>
    rw [chunksNow_eq cut] at listed
    exact hashes.embed listed (indexing.takeChunks_embedder clock path chunks)
  · exact hashes
  · exact hashes

theorem HoldsHashes.takeAll {files : List String} (hashes : indexing.engine.HoldsHashes known)
    (config : indexing.engine.config.chunks = options)
    (listed : textsOf options read (files.map Path.normalize) ⊆ known)
    (clock : Nat → Nat → Nat) (i : Nat) :
    (Indexing.takeAll clock read i files indexing).2.engine.HoldsHashes known := by
  refine (Indexing.takeAll_induction (motive := fun engine =>
    engine.HoldsHashes known ∧ engine.config.chunks = options) ?_ clock i ⟨hashes, config⟩).1
  rintro file member indexing clock ⟨hashes, config⟩
  have here : (chunksNow options read (Path.normalize file)).map (·.content) ⊆ known :=
    fun text inside => listed (List.mem_flatMap.mpr ⟨_, List.mem_map_of_mem member, inside⟩)
  have kept := (keeps_take indexing clock read (Path.normalize file)).config
  exact ⟨hashes.take config here clock, (congrArg Config.chunks kept).trans config⟩

theorem HoldsHashes.during (hashes : engine.HoldsHashes known) {operation : Operation}
    (own : operation.isOwn = true) (listed : operation.texts engine.config.chunks ⊆ known)
    (clock : Nat → Nat → Nat) : (engine.during clock operation).HoldsHashes known := by
  cases operation with
  | build read files => exact hashes.congr rfl
  | restore saved => cases own
  | loadEmbeddings text => cases own
  | index read files =>
    have start : (⟨engine, 0, 0, []⟩ : Indexing).engine.HoldsHashes known := hashes
    rw [Engine.during, indexDuring_engine]
    exact start.takeAll rfl listed clock 0
  | search query limit =>
    simp only [Engine.during, searchDuring]
    split
    · exact hashes.embed listed rfl
    · exact hashes
  | ask query id => exact hashes.congr (engine.askDuring_same (clock 0) query id).2

theorem HoldsHashes.duringAll (hashes : engine.HoldsHashes known) {history : List Event}
    (own : ∀ event ∈ history, event.2.isOwn = true)
    (listed : historyTexts engine.config.chunks history ⊆ known) :
    (engine.duringAll history).HoldsHashes known := by
  induction history generalizing engine with
  | nil => exact hashes
  | cons event history ih =>
    obtain ⟨first, rest⟩ := List.forall_mem_cons.mp own
    obtain ⟨here, later⟩ := List.append_subset.mp listed
    have kept := (engine.keeps_during event.1 first).config
    refine ih (hashes.during first here event.1) rest ?_
    rw [kept]
    exact later

theorem new_holdsHashes (config : Config) (known : List String) :
    (new config none).HoldsHashes known where
  hashes := Embedder.hashOnly_holdsHashes _ _ _ known
  sized := fun _ _ holds => absurd holds (Cache.not_holds_new _ _)

end CodeAtlas.Engine

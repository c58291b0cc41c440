import CodeAtlas.Proofs.Chunk.Counted
import CodeAtlas.Proofs.Engine.Again
import CodeAtlas.Proofs.Engine.Answers
import CodeAtlas.Proofs.Graph.Built

namespace CodeAtlas.Engine

variable {engine : Engine} {config : Config} {known : List String}

theorem chunksNow_counted {options : ChunkOptions} {read : String → Reading} {path : String}
    {chunk : Chunk} (member : chunk ∈ chunksNow options read path) : chunk.Counted := by
  unfold chunksNow chunksOf at member
  split at member
  · cases member
  · split at member
    · next made => exact Chunk.ofSource_counted made chunk member
    · cases member
    · cases member
    · cases member

/-- An operation that leaves the graph and the index as they are. -/
def Operation.isQuiet : Operation → Bool
  | .search _ _ | .ask _ _ => true
  | _ => false

theorem retriever_during (engine : Engine) (clock : Nat → Nat → Nat) {operation : Operation}
    (quiet : operation.isQuiet = true) :
    (engine.during clock operation).retriever = engine.retriever := by
  cases operation with
  | build read files => cases quiet
  | restore saved => cases quiet
  | loadEmbeddings text => cases quiet
  | index read files => cases quiet
  | search query limit => exact engine.searchDuring_retriever (clock 0) query limit
  | ask query id => exact (engine.askDuring_same (clock 0) query id).1

theorem retriever_duringAll (engine : Engine) {history : List Event}
    (quiet : ∀ event ∈ history, event.2.isQuiet = true) :
    (engine.duringAll history).retriever = engine.retriever := by
  induction history generalizing engine with
  | nil => rfl
  | cons event history ih =>
    obtain ⟨first, rest⟩ := List.forall_mem_cons.mp quiet
    exact (ih (engine.during event.1 event.2) rest).trans (engine.retriever_during event.1 first)

/-- A record of a chunk with a known text, which has its hash vector. -/
def IsHashed (dimension : Nat) (known : List String) (record : IndexRecord) : Prop :=
  ∃ chunk : Chunk, chunk.Counted ∧ chunk.content ∈ known ∧
    record = .ofChunk chunk (Embedding.hash dimension chunk.content)

structure Sound (config : Config) (known : List String) (engine : Engine) : Prop where
  settings : engine.config = config
  dimension : engine.embedder.dimension = max config.dimension 1
  set : engine.retriever.index.dimension = some (max config.dimension 1)
  agrees : engine.Agrees
  hashes : engine.HoldsHashes known
  truth : engine.KeepsTruth
  records : ∀ record ∈ engine.retriever.index.records,
    IsHashed (max config.dimension 1) known record
  graph : ∀ graph ∈ engine.retriever.graph, graph.WellFormed

theorem new_sound (config : Config) (known : List String) : (new config none).Sound config known where
  settings := rfl
  dimension := rfl
  set := rfl
  agrees := new_agrees config none
  hashes := new_holdsHashes config known
  truth := new_keepsTruth config none
  records := fun _ nothing => nomatch nothing
  graph := fun _ nothing => nomatch nothing

section Indexing

variable {read : String → Reading} {files : List String}
  (listed : textsOf config.chunks read (files.map Path.normalize) ⊆ known)

include listed

/-- The records after indexing depend on the records before and on the files alone. -/
theorem Sound.records_index (sound : engine.Sound config known) (differ : Embedder.KeysDiffer known)
    (clock : Nat → Nat → Nat) :
    (engine.indexDuring clock read files).2.retriever.index.records =
      reindexed (fun chunk =>
        IndexRecord.ofChunk chunk (Embedding.hash (max config.dimension 1) chunk.content))
        config.chunks read ((reached config.chunks read files).map Path.normalize)
        engine.retriever.index.records := by
  obtain ⟨settings, dimension, _, agrees, hashes, _, _, _⟩ := sound
  subst settings
  have after := ((makes_hashes differ (max engine.config.dimension 1)).index
    ⟨hashes.hashes, dimension⟩ agrees.fits clock listed).2
  simpa only [List.map_id] using after

theorem Sound.isHashed_index (sound : engine.Sound config known)
    (differ : Embedder.KeysDiffer known) (clock : Nat → Nat → Nat) :
    ∀ record ∈ (engine.indexDuring clock read files).2.retriever.index.records,
      IsHashed (max config.dimension 1) known record := by
  intro record member
  rw [sound.records_index listed differ clock] at member
  rcases mem_reindexed member with before | ⟨path, asked, chunk, now, rfl⟩
  · exact sound.records record before
  · have text : chunk.content ∈
        textsOf config.chunks read ((reached config.chunks read files).map Path.normalize) :=
      List.mem_flatMap.mpr ⟨path, asked, List.mem_map_of_mem now⟩
    exact ⟨chunk, chunksNow_counted now, listed (textsOf_reached_subset text), rfl⟩

end Indexing

theorem Sound.during (sound : engine.Sound config known) (differ : Embedder.KeysDiffer known)
    (clock : Nat → Nat → Nat) {operation : Operation} (own : operation.isOwn = true)
    (listed : operation.texts config.chunks ⊆ known) :
    (engine.during clock operation).Sound config known := by
  have kept := engine.keeps_during clock own
  have listed' : operation.texts engine.config.chunks ⊆ known := by
    rw [sound.settings]
    exact listed
  refine ⟨kept.config.trans sound.settings, kept.dimension.trans sound.dimension,
    kept.set _ sound.set, sound.agrees.during clock operation,
    sound.hashes.during own listed' clock, sound.truth.during clock operation, ?_, ?_⟩
  · cases operation with
    | build read files => exact sound.records
    | restore saved => cases own
    | loadEmbeddings text => cases own
    | index read files => exact sound.isHashed_index listed differ clock
    | search query limit =>
      rw [engine.retriever_during clock rfl]
      exact sound.records
    | ask query id =>
      rw [engine.retriever_during clock rfl]
      exact sound.records
  · rw [during_graph]
    cases operation with
    | build read files =>
      intro graph built
      obtain rfl := Option.some.inj built
      exact Graph.build_wellFormed _ files
    | restore saved => cases own
    | loadEmbeddings text => cases own
    | index read files => exact sound.graph
    | search query limit => exact sound.graph
    | ask query id => exact sound.graph

theorem Sound.duringAll (sound : engine.Sound config known) (differ : Embedder.KeysDiffer known)
    {history : List Event} (own : ∀ event ∈ history, event.2.isOwn = true)
    (listed : historyTexts config.chunks history ⊆ known) :
    (engine.duringAll history).Sound config known := by
  induction history generalizing engine with
  | nil => exact sound
  | cons event history ih =>
    obtain ⟨first, rest⟩ := List.forall_mem_cons.mp own
    obtain ⟨here, later⟩ := List.append_subset.mp listed
    exact ih (sound.during differ event.1 first here) rest later

end CodeAtlas.Engine

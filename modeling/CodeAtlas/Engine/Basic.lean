import CodeAtlas.Cache.Query
import CodeAtlas.Chunk.Cut
import CodeAtlas.Embedding.Resilient
import CodeAtlas.Engine.Config
import CodeAtlas.Graph.Build
import CodeAtlas.Graph.Snapshot
import CodeAtlas.Index.Snapshot
import CodeAtlas.Search.Retriever

namespace CodeAtlas

structure Engine where
  config : Config
  embedder : Embedder
  retriever : Retriever
  queries : QueryCache (List GraphNode)

/-- What indexing did and what it had to leave out. -/
structure IndexReport where
  filesIndexed : Nat
  chunksIndexed : Nat
  skipped : List Skipped
  /-- How many batches the provider did not answer properly. -/
  fallbackBatches : Nat
  deriving Repr, DecidableEq

/-- The questions about a graph whose answers are kept. -/
inductive GraphQuery where
  | callers | callees | imports | importers
  deriving Repr, DecidableEq

namespace GraphQuery

def name : GraphQuery → String
  | callers => "callers"
  | callees => "callees"
  | imports => "imports"
  | importers => "importers"

/-- The ids that a question asks for. -/
def ids (graph : Graph) (id : String) : GraphQuery → List String
  | callers => graph.callersOf id
  | callees => graph.calleesOf id
  | imports => graph.importsOf id
  | importers => graph.importersOf id

/-- The nodes that a question asks for. -/
def answer (query : GraphQuery) (graph : Graph) (id : String) : List GraphNode :=
  (query.ids graph id).filterMap graph.node?

end GraphQuery

/-- The texts that an earlier engine left, if they are there and can be read. -/
structure SavedState where
  graph : Option String
  vectors : Option String
  embeddings : Option String

/-- What of them was of use. -/
structure Restored where
  graph : Bool
  vectors : Nat
  embeddings : Nat
  deriving Repr, DecidableEq

namespace Engine

/-- An engine that knows nothing yet; without a provider its vectors are hashes of texts. -/
def new (config : Config) (provider : Option Provider) : Engine :=
  let cache : EmbeddingCache := .new config.embeddingCapacity config.embeddingTtl
  let embedder := match provider with
    | some provider => Embedder.new (some provider) cache
    | none => Embedder.hashOnly config.dimension cache
  { config, embedder
    retriever := ⟨.withDimension embedder.dimension, none⟩
    queries := .new config.queryCapacity config.queryTtl }

/-- The graph takes the place of the one before; what was answered from that is dropped. -/
def attach (engine : Engine) (graph : Graph) : Engine :=
  { engine with
    retriever := { engine.retriever with graph := some graph }
    queries := engine.queries.clear.2 }

/-- Builds the graph of a list of files. -/
def build (engine : Engine) (read : String → Reading) (files : List String) :
    (Graph × BuildReport) × Engine :=
  let built := Graph.build (.ofFiles read) files
  (built, engine.attach built.1)

/-- What is kept of the chunks of a file in its records: all that begins with its path and a
colon. -/
def recordStart (path : String) : String := path ++ ":"

def withIndex (engine : Engine) (index : VectorIndex) : Engine :=
  { engine with retriever := { engine.retriever with index } }

/-- The chunks of a file, or why the file is left out. A file of blanks has no chunks. -/
def chunksOf (options : ChunkOptions) (read : String → Reading) (path : String) :
    Except (Failure SkipReason) (List Chunk) :=
  match (read path).source path with
  | .error reason => .error (.error reason)
  | .ok source =>
    match Chunk.ofSource options path source with
    | .ok chunks => .ok chunks
    | .error (.error .emptyContent) => .ok []
    | .error (.error error) => .error (.error (.unreadable error.message))
    | .error .overflow => .error .overflow

/-- Indexing that has looked at some files. -/
structure Indexing where
  engine : Engine
  filesIndexed : Nat
  chunksIndexed : Nat
  skipped : List Skipped

namespace Indexing

/-- Puts the chunks of a file in the place of those that it had. -/
def takeChunks (clock : Nat → Nat) (indexing : Indexing) (path : String) (chunks : List Chunk) :
    Except (Failure DimensionError) Unit × Indexing :=
  let engine := indexing.engine
  let engine := engine.withIndex (engine.retriever.index.removeUnder (recordStart path)).2
  if chunks.isEmpty then
    (.ok (), { indexing with engine, filesIndexed := indexing.filesIndexed + 1 })
  else
    let (vectors, embedder) := engine.embedder.embedDuring clock (chunks.map (·.content))
    let engine := { engine with embedder }
    let records := List.zipWith IndexRecord.ofChunk chunks vectors
    let indexing :=
      { indexing with
        filesIndexed := indexing.filesIndexed + 1
        chunksIndexed := indexing.chunksIndexed + records.length }
    match engine.retriever.index.insertMany records with
    | .ok index => (.ok (), { indexing with engine := engine.withIndex index })
    | .error error => (.error (.error error), { indexing with engine })

def skip (indexing : Indexing) (path : String) (reason : SkipReason) : Indexing :=
  { indexing with skipped := indexing.skipped ++ [⟨path, reason⟩] }

/-- Indexes a file, unless it is left out. -/
def take (clock : Nat → Nat) (read : String → Reading) (indexing : Indexing) (path : String) :
    Except (Failure DimensionError) Unit × Indexing :=
  match chunksOf indexing.engine.config.chunks read path with
  | .ok chunks => indexing.takeChunks clock path chunks
  | .error (.error reason) => (.ok (), indexing.skip path reason)
  | .error .overflow => (.error .overflow, indexing)

/-- Indexes files up to the first that does not fit in or at which the program aborts. Each has the
readings of the clock that go with its number. -/
def takeAll (clock : Nat → Nat → Nat) (read : String → Reading) : Nat → List String → Indexing →
    Except (Failure DimensionError) Unit × Indexing
  | _, [], indexing => (.ok (), indexing)
  | i, file :: files, indexing =>
    match indexing.take (clock i) read (Path.normalize file) with
    | (.ok (), indexing) => takeAll clock read (i + 1) files indexing
    | (.error error, indexing) => (.error error, indexing)

end Indexing

/-- Cuts files into chunks and puts these into the index, in the place of the chunks that the files
had before. -/
def indexDuring (engine : Engine) (clock : Nat → Nat → Nat) (read : String → Reading)
    (files : List String) : Except (Failure DimensionError) IndexReport × Engine :=
  match Indexing.takeAll clock read 0 files ⟨engine, 0, 0, []⟩ with
  | (.error error, done) => (.error error, done.engine)
  | (.ok (), done) =>
    (.ok {
      filesIndexed := done.filesIndexed
      chunksIndexed := done.chunksIndexed
      skipped := done.skipped
      fallbackBatches := done.engine.embedder.fallbackBatches - engine.embedder.fallbackBatches },
      done.engine)

/-- Indexes files at a time that does not pass. -/
def index (engine : Engine) (now : Nat) (read : String → Reading) (files : List String) :
    Except (Failure DimensionError) IndexReport × Engine :=
  engine.indexDuring (fun _ _ => now) read files

/-- The best results for a query. The clock is read for its vector. -/
def searchDuring [Machine] (engine : Engine) (clock : Nat → Nat) (query : String) (limit : Nat) :
    Except SearchError (List SearchHit) × Engine :=
  if engine.retriever.needsVector query limit then
    let (vectors, embedder) := engine.embedder.embedDuring clock [query]
    (engine.retriever.search query limit (.ok vectors), { engine with embedder })
  else (engine.retriever.search query limit (.ok []), engine)

/-- The best results for a query at a time that does not pass. -/
def search [Machine] (engine : Engine) (now : Nat) (query : String) (limit : Nat) :
    Except SearchError (List SearchHit) × Engine :=
  engine.searchDuring (fun _ => now) query limit

/-- Answers a question about the graph, from the cache if the answer is there. The clock is read when
the answer is looked up and again when it is kept. -/
def askDuring (engine : Engine) (clock : Nat → Nat) (query : GraphQuery) (id : String) :
    List GraphNode × Engine :=
  match engine.retriever.graph with
  | none => ([], engine)
  | some graph =>
    match QueryCache.find engine.queries (clock 0) query.name (.string id) with
    | (some nodes, queries) => (nodes, { engine with queries })
    | (none, queries) =>
      let nodes := query.answer graph id
      (nodes,
        { engine with queries := QueryCache.insert queries (clock 1) query.name (.string id) nodes })

/-- Answers a question at a time that does not pass. -/
def ask (engine : Engine) (now : Nat) (query : GraphQuery) (id : String) :
    List GraphNode × Engine :=
  engine.askDuring (fun _ => now) query id

/-- The vectors of a text take the place of those in the cache; yields how many are kept. -/
def loadEmbeddings (engine : Engine) (now : Nat) (text : Option String) : Nat × Engine :=
  let cache := EmbeddingCache.load engine.config.embeddingCapacity engine.config.embeddingTtl now text
  (cache.entries.length, { engine with embedder := { engine.embedder with cache } })

/-- Takes up a graph from its text, if it is one. -/
def restoreGraph (engine : Engine) (text : Option String) : Bool × Engine :=
  match text.bind Graph.load? with
  | some loaded => (true, engine.attach loaded.graph)
  | none => (false, engine)

/-- Whether an index holds vectors of the dimension that the engine computes. -/
def accepts (engine : Engine) (index : VectorIndex) : Bool :=
  index.dimension.all (· == engine.embedder.dimension)

/-- Takes up an index from its text, if its dimension is the right one. -/
def restoreIndex (engine : Engine) (text : Option String) : Nat × Engine :=
  match text.map VectorIndex.load with
  | some (.ok index) =>
    if engine.accepts index then (index.records.length, engine.withIndex index) else (0, engine)
  | _ => (0, engine)

/-- Takes up what an earlier engine left; what is missing or malformed is passed over. -/
def restore (engine : Engine) (now : Nat) (saved : SavedState) : Restored × Engine :=
  let (graph, engine) := engine.restoreGraph saved.graph
  let (vectors, engine) := engine.restoreIndex saved.vectors
  let (embeddings, engine) := engine.loadEmbeddings now saved.embeddings
  (⟨graph, vectors, embeddings⟩, engine)

/-- Whether the program has aborted, as an entry of a cache was found too often. -/
def overflowed (engine : Engine) : Bool := engine.embedder.cache.overflowed || engine.queries.overflowed

/-- Counts of the graph, if there is one. -/
def stats (engine : Engine) : Option Graph.Stats := engine.retriever.graph.map Graph.stats

end Engine

end CodeAtlas

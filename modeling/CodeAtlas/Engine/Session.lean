import CodeAtlas.Disk.Basic
import CodeAtlas.Engine.Basic

namespace CodeAtlas

namespace Config

/-- Where a graph is saved. -/
def graphPlace (config : Config) (root : String) : SavePlace :=
  ⟨config.graphPath root, config.graphPath root ++ ".tmp", true⟩

def vectorsPlace (config : Config) (root : String) : SavePlace :=
  ⟨config.vectorsPath root, config.vectorsPath root ++ ".tmp", false⟩

def embeddingsPlace (config : Config) (root : String) : SavePlace :=
  ⟨config.embeddingsPath root, Path.below (config.stateIn root) "embeddings.tmp", false⟩

end Config

/-- The text of a file, if there is one that can be read. -/
def Reading.text? : Reading → Option String
  | text content => some content
  | _ => none

namespace Engine

variable {m : Type → Type} [Monad m]

/-- Reads the files of a list; none of the others is ever asked for. -/
def readAll (read : String → m Reading) (files : List String) : m (String → Reading) := do
  let found ← (files.map Path.normalize).mapM fun path => do return (path, ← read path)
  return fun path => (found.lookup path).getD .missing

/-- Builds the graph of a list of files and saves it. -/
def buildAndSave (engine : Engine) (disk : Disk m) (root : String) (read : String → Reading)
    (files : List String) : m ((Graph × BuildReport × Bool) × Engine) := do
  let ((graph, report), engine) := engine.build read files
  let written ← disk.save (engine.config.graphPlace root) graph.save
  return ((graph, report, written), engine)

/-- Reads the text of a file, if there is one that can be read. -/
def readText (disk : Disk m) (path : String) : m (Option String) := do
  return (← disk.read path).text?

/-- Takes up what an earlier engine left on disk. -/
def restoreFrom (engine : Engine) (disk : Disk m) (root : String) (now : Nat) :
    m (Restored × Engine) := do
  let config := engine.config
  return engine.restore now {
    graph := ← readText disk (config.graphPath root)
    vectors := ← readText disk (config.vectorsPath root)
    embeddings := ← readText disk (config.embeddingsPath root) }

/-- Takes up the vectors that an earlier engine left on disk. -/
def loadEmbeddingsFrom (engine : Engine) (disk : Disk m) (root : String) (now : Nat) :
    m (Nat × Engine) := do
  return engine.loadEmbeddings now (← readText disk (engine.config.embeddingsPath root))

/-- Saves the index. -/
def saveIndex (engine : Engine) (disk : Disk m) (root : String) : m Bool :=
  disk.save (engine.config.vectorsPlace root) engine.retriever.index.save

/-- Saves the vectors in the cache. -/
def saveEmbeddings (engine : Engine) (disk : Disk m) (root : String) : m Bool :=
  disk.save (engine.config.embeddingsPlace root) (EmbeddingCache.save engine.embedder.cache)

end Engine

end CodeAtlas

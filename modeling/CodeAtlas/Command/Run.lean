import CodeAtlas.Command.Layout
import CodeAtlas.Command.Request
import CodeAtlas.Engine.Session
import CodeAtlas.Scan.Files

namespace CodeAtlas

/-- Why a run has no result. -/
inductive RunError where
  | noRoot
  | config (path : String)
  | unsaved
  | noGraph
  | unknownNode (id : String)
  | search (error : SearchError)
  deriving Repr, DecidableEq

def RunError.message : RunError → String
  | noRoot => "Invalid project path"
  | config path => s!"Failed to load config {path}"
  | unsaved => "Failed to save vector index"
  | noGraph => "No code graph found; run \x60context-graph index\x60 first"
  | unknownNode id => s!"Unknown node id '{id}'"
  | search error => error.message

namespace Config

variable {m : Type → Type} [Monad m]

/-- Reads settings from a file. -/
def readFrom (disk : Disk m) (path : String) : ExceptT (Failure RunError) m Config := do
  match ← disk.read path with
  | .text content =>
    match Config.parse content with
    | .ok config => return config
    | .error _ => throw (.error (.config path))
  | _ => throw (.error (.config path))

/-- The file with the settings of a project. -/
def pathIn (root : String) : String :=
  Path.below (Path.below root Config.defaultStateDirectory) "config.toml"

/-- The settings in a file, else those of the project, else the default ones. -/
def find (disk : Disk m) (file : Option String) (root : String) : ExceptT (Failure RunError) m Config := do
  match file with
  | some path => readFrom disk path
  | none =>
    let path := pathIn root
    if ← disk.isFile path then readFrom disk path else return .default

end Config

namespace Request

variable {m : Type → Type} [Monad m]

/-- The root of the project and its settings. -/
def locate (request : Request) (disk : Disk m) : ExceptT (Failure RunError) m (String × Config) := do
  match ← disk.canonical? request.path with
  | none => throw (.error .noRoot)
  | some root => return (root, ← Config.find disk request.config root)

/-- An engine for the project, with all that earlier runs left. -/
def openEngine (request : Request) (disk : Disk m) (now : Nat) : ExceptT (Failure RunError) m Engine := do
  let (root, config) ← request.locate disk
  let (_, engine) ← .lift ((Engine.new config none).restoreFrom disk root now)
  return engine

/-- Builds the graph and the index of the project; of what was there, only vectors of texts are of
use. -/
def runIndex (request : Request) (disk : Disk m) (now : Nat) : ExceptT (Failure RunError) m Sayings := do
  let (root, config) ← request.locate disk
  let files ← .lift (Scan.files disk root)
  let (_, engine) ← .lift ((Engine.new config none).loadEmbeddingsFrom disk root now)
  let read ← .lift (Engine.readAll (fun path => disk.read (Path.below root path)) files)
  let ((_, build, snapshotWritten), engine) ← .lift (engine.buildAndSave disk root read files)
  match engine.index now read files with
  | (.error (.error error), _) => throw (.error (.search (.dimension error)))
  | (.error .overflow, _) => throw .overflow
  | (.ok index, engine) =>
    if engine.overflowed then throw .overflow
    if !(← .lift (engine.saveIndex disk root)) then throw (.error .unsaved)
    let _ ← .lift (engine.saveEmbeddings disk root)
    let indexed : Indexed := {
      root, build, snapshotWritten, index
      filesScanned := files.length
      stats := engine.stats
      hashed := engine.embedder.model == "hash" }
    return indexed.say request.json

def runSearch (request : Request) (disk : Disk m) (now : Nat) (query : String)
    (limit : Option Nat) : ExceptT (Failure RunError) m Sayings := do
  let engine ← request.openEngine disk now
  match engine.search now query (limit.getD engine.config.defaultLimit) with
  | (.ok hits, engine) =>
    if engine.overflowed then throw .overflow
    return SearchHit.sayAll query hits request.json
  | (.error error, _) => throw (.error (.search error))

def runStats (request : Request) (disk : Disk m) (now : Nat) : ExceptT (Failure RunError) m Sayings := do
  let engine ← request.openEngine disk now
  match engine.stats with
  | none => throw (.error .noGraph)
  | some stats => return stats.say engine.retriever.index.records.length request.json

/-- The nodes next to a node; only files have imports. -/
def neighborsOf (graph : Graph) (node : GraphNode) : Neighbors :=
  let nodes (query : GraphQuery) := query.answer graph node.id
  let filesOnly (query : GraphQuery) := if node.type = .file then nodes query else []
  { node
    contains := (graph.symbolsIn node.id).filterMap graph.node?
    callers := nodes .callers
    callees := nodes .callees
    imports := filesOnly .imports
    importers := filesOnly .importers }

def runNeighbors (request : Request) (disk : Disk m) (now : Nat) (id : String) :
    ExceptT (Failure RunError) m Sayings := do
  let engine ← request.openEngine disk now
  match engine.retriever.graph with
  | none => throw (.error .noGraph)
  | some graph =>
    match graph.node? id with
    | none => throw (.error (.unknownNode id))
    | some node => return (neighborsOf graph node).say request.json

/-- Does what is asked for, at a time. -/
def run (request : Request) (disk : Disk m) (now : Nat) : m (Except (Failure RunError) Sayings) :=
  match request.task with
  | .index => request.runIndex disk now
  | .search query limit => request.runSearch disk now query limit
  | .stats => request.runStats disk now
  | .neighbors id => request.runNeighbors disk now id

end Request

end CodeAtlas

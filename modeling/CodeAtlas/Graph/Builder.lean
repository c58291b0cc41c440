import CodeAtlas.Graph.Build
import CodeAtlas.Graph.Snapshot

namespace CodeAtlas

/-- Where the text of a graph is kept. -/
inductive SnapshotSlot where
  /-- Nowhere. -/
  | unset
  /-- At a place that can be neither written nor read. -/
  | blocked
  /-- In a file that may not exist yet. -/
  | file (content : Option String)
  deriving Repr, DecidableEq

namespace SnapshotSlot

/-- Writes a text; also says whether it was written. -/
def write (text : String) : SnapshotSlot → Bool × SnapshotSlot
  | unset => (false, unset)
  | blocked => (false, blocked)
  | file _ => (true, file (some text))

def content? : SnapshotSlot → Option String
  | file content => content
  | _ => none

end SnapshotSlot

structure Builder where
  graph : Option Graph
  snapshot : SnapshotSlot
  deriving Repr, DecidableEq

/-- A graph with the report of its build, and whether the snapshot was written. -/
structure BuiltGraph where
  graph : Graph
  report : BuildReport
  snapshotWritten : Bool
  deriving Repr, DecidableEq

inductive BuildError where
  | cancelled
  deriving Repr, DecidableEq

def BuildError.message : BuildError → String
  | cancelled => "Graph build cancelled"

inductive LoadError where
  /-- The snapshot cannot be read. -/
  | unreadable
  /-- Its text is not one of a graph. -/
  | invalid
  deriving Repr, DecidableEq

namespace Builder

def new (snapshot : SnapshotSlot) : Builder := ⟨none, snapshot⟩

/-- Builds a graph from scratch and keeps it, unless cancelled. -/
def build (builder : Builder) (project : Project) (cancelled : Nat → Bool) (files : List String) :
    Except BuildError BuiltGraph × Builder :=
  match Graph.buildUntil? project cancelled files with
  | none => (.error .cancelled, builder)
  | some (graph, report) =>
    let (written, snapshot) := builder.snapshot.write graph.save
    (.ok ⟨graph, report, written⟩, ⟨some graph, snapshot⟩)

/-- Loads the graph of the snapshot and keeps it; `none` if there is no snapshot. -/
def load (builder : Builder) : Except LoadError (Option Graph.Loaded) × Builder :=
  match builder.snapshot with
  | .unset => (.ok none, builder)
  | .blocked => (.error .unreadable, builder)
  | .file none => (.ok none, builder)
  | .file (some text) =>
    match Graph.load? text with
    | none => (.error .invalid, builder)
    | some loaded => (.ok (some loaded), { builder with graph := some loaded.graph })

end Builder

end CodeAtlas

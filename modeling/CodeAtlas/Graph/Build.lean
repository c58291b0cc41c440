import CodeAtlas.Graph.Basic
import CodeAtlas.Outline.Source
import CodeAtlas.Path.Import
import CodeAtlas.Project.Reading

namespace CodeAtlas

/-- The files of a project, and how a file is outlined. -/
structure Project where
  read : String → Reading
  outline : String → String → Except OutlineError Outline

/-- The project with the given files, outlined by reading them. -/
def Project.ofFiles (read : String → Reading) : Project := ⟨read, Outline.ofSource⟩

/-- A file that is in the graph although its outline is not known. -/
structure Diagnostic where
  path : String
  message : String
  deriving Repr, DecidableEq

/-- What a build did and what it had to leave out. -/
structure BuildReport where
  filesIndexed : Nat
  skipped : List Skipped
  diagnostics : List Diagnostic
  importsResolved : Nat
  importsUnresolved : Nat
  callsResolved : Nat
  callsUnresolved : Nat
  deriving Repr, DecidableEq

namespace Graph

/-- Adds a declaration and its relation to its file, unless its id is taken. -/
def addSymbol (path : String) (graph : Graph) (symbol : Declared) : Graph :=
  let node := GraphNode.ofSymbol path symbol
  if graph.contains node.id then graph
  else (graph.addNode node).addEdge ⟨GraphNode.fileId path, node.id, .contains⟩

/-- Adds a file and its declarations. -/
def addFile (graph : Graph) (path : String) (outline : Outline) : Graph :=
  outline.symbols.foldl (addSymbol path) (graph.addNode (.ofFile path))

end Graph

/-- A build that has looked at some files. The outlines are those of the files taken up. -/
structure Draft where
  graph : Graph
  seen : List String
  outlines : List (String × Outline)
  skipped : List Skipped
  diagnostics : List Diagnostic

namespace Draft

def empty : Draft := ⟨.empty, [], [], [], []⟩

/-- Takes up a file with its text; a file without an outline counts as one that says nothing. -/
def addSource (project : Project) (draft : Draft) (path source : String) : Draft :=
  match project.outline path source with
  | .ok outline =>
    { draft with
      graph := draft.graph.addFile path outline
      outlines := draft.outlines ++ [(path, outline)] }
  | .error error =>
    { draft with
      graph := draft.graph.addFile path .empty
      outlines := draft.outlines ++ [(path, .empty)]
      diagnostics := draft.diagnostics ++ [⟨path, error.message⟩] }

/-- Looks at a file, unless it was looked at before. -/
def take (project : Project) (draft : Draft) (path : String) : Draft :=
  if draft.seen.contains path then draft
  else
    let draft := { draft with seen := path :: draft.seen }
    match (project.read path).source path with
    | .ok source => draft.addSource project path source
    | .error reason => { draft with skipped := draft.skipped ++ [⟨path, reason⟩] }

/-- Looks at files until cancelled; `cancelled` is asked before each, with its number. -/
def takeAll (project : Project) (cancelled : Nat → Bool) : Nat → List String → Draft → Option Draft
  | _, [], draft => some draft
  | i, file :: files, draft =>
    if cancelled i then none
    else takeAll project cancelled (i + 1) files (draft.take project (Path.normalize file))

end Draft

/-- A graph whose imports and calls are being linked, with the counts so far. -/
structure Linking where
  graph : Graph
  importsResolved : Nat
  importsUnresolved : Nat
  callsResolved : Nat
  callsUnresolved : Nat

namespace Linking

/-- Links an import to the file that it means. Two files are related only once. -/
def addImport (path : String) (linking : Linking) (binding : ImportBinding) : Linking :=
  let known := fun candidate => linking.graph.contains (GraphNode.fileId candidate)
  match Path.resolveImport? path binding.module known with
  | none => { linking with importsUnresolved := linking.importsUnresolved + 1 }
  | some target =>
    let edge := ⟨GraphNode.fileId path, GraphNode.fileId target, .imports⟩
    if linking.graph.hasEdge edge then linking
    else
      { linking with
        graph := linking.graph.addEdge edge
        importsResolved := linking.importsResolved + 1 }

/-- The relation that a call stands for: from the function it is in, or from its file, to the
function of that name in the same file. -/
def callEdge (path : String) (call : CallSite) : GraphEdge where
  source := match call.caller with
    | some caller => GraphNode.symbolId .function path caller
    | none => GraphNode.fileId path
  target := GraphNode.symbolId .function path call.callee
  type := .calls

def addCall (path : String) (linking : Linking) (call : CallSite) : Linking :=
  let edge := callEdge path call
  if linking.graph.joins edge then
    { linking with
      graph := linking.graph.addEdge edge
      callsResolved := linking.callsResolved + 1 }
  else { linking with callsUnresolved := linking.callsUnresolved + 1 }

/-- Links what a file imports and then what it calls. -/
def addOutline (linking : Linking) (file : String × Outline) : Linking :=
  let relative := file.2.imports.filter (·.isRelative)
  file.2.calls.foldl (addCall file.1) (relative.foldl (addImport file.1) linking)

end Linking

namespace Draft

/-- Links the imports and calls of all files taken up. -/
def link (draft : Draft) : Linking :=
  draft.outlines.foldl Linking.addOutline ⟨draft.graph, 0, 0, 0, 0⟩

def report (draft : Draft) (linking : Linking) : BuildReport where
  filesIndexed := draft.outlines.length
  skipped := draft.skipped
  diagnostics := draft.diagnostics
  importsResolved := linking.importsResolved
  importsUnresolved := linking.importsUnresolved
  callsResolved := linking.callsResolved
  callsUnresolved := linking.callsUnresolved

end Draft

namespace Graph

/-- Builds the graph of a list of files, unless it is cancelled before one of them. -/
def buildUntil? (project : Project) (cancelled : Nat → Bool) (files : List String) :
    Option (Graph × BuildReport) :=
  (Draft.takeAll project cancelled 0 files .empty).map fun draft =>
    let linking := draft.link
    (linking.graph, draft.report linking)

/-- The draft of a build that nobody cancels. -/
def draft (project : Project) (files : List String) : Draft :=
  files.foldl (fun draft file => draft.take project (Path.normalize file)) .empty

/-- Builds the graph of a list of files. -/
def build (project : Project) (files : List String) : Graph × BuildReport :=
  let draft := draft project files
  (draft.link.graph, draft.report draft.link)

end Graph

end CodeAtlas

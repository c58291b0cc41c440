import CodeAtlas.Graph.Build
import CodeAtlas.Graph.Query
import CodeAtlas.Json.Basic

namespace CodeAtlas

open Json

def SkipReason.encode : SkipReason → Json
  | missing => object [("kind", string "missing")]
  | empty => object [("kind", string "empty")]
  | unreadable message => object [("kind", string "unreadable"), ("detail", string message)]

def Skipped.encode (skipped : Skipped) : Json :=
  object [("path", string skipped.path), ("reason", skipped.reason.encode)]

def Diagnostic.encode (diagnostic : Diagnostic) : Json :=
  object [("path", string diagnostic.path), ("message", string diagnostic.message)]

def BuildReport.encode (report : BuildReport) (snapshotWritten : Bool) : Json :=
  object [
    ("files_indexed", ofNat report.filesIndexed),
    ("skipped", array (report.skipped.map Skipped.encode)),
    ("diagnostics", array (report.diagnostics.map Diagnostic.encode)),
    ("imports_resolved", ofNat report.importsResolved),
    ("imports_unresolved", ofNat report.importsUnresolved),
    ("calls_resolved", ofNat report.callsResolved),
    ("calls_unresolved", ofNat report.callsUnresolved),
    ("snapshot_written", bool snapshotWritten)]

def Graph.Stats.encode (stats : Graph.Stats) : Json :=
  object [
    ("total_nodes", ofNat stats.totalNodes),
    ("total_edges", ofNat stats.totalEdges),
    ("nodes_by_type", object (stats.nodesByType.map fun (type, count) => (type.name, ofNat count))),
    ("edges_by_type", object (stats.edgesByType.map fun (type, count) => (type.name, ofNat count)))]

end CodeAtlas

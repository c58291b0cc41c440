import CodeAtlas.Outline.Tree
import CodeAtlas.Path.Basic
import CodeAtlas.Script.Parse

namespace CodeAtlas

/-- Why a file has no outline. -/
inductive OutlineError where
  /-- The statement that starts in the line is wrong. -/
  | malformed (path : String) (line : Nat)
  /-- The extension names no dialect that can be read. -/
  | unsupported
  deriving Repr, DecidableEq

namespace OutlineError

def message : OutlineError → String
  | malformed path line => s!"Parse error: {path}: syntax error near line {line}"
  | unsupported => "Unsupported language: unknown"

end OutlineError

/-- The dialect of a file, from the extension of its path. -/
def Script.Dialect.ofPath? (path : String) : Option Script.Dialect :=
  (Path.extension? path).bind Script.Dialect.ofExtension?

/-- The name of a dialect, or of not knowing it. -/
def Script.Dialect.nameOf (dialect : Option Script.Dialect) : String :=
  (dialect.map Script.Dialect.name).getD "unknown"

namespace Outline

/-- Reads a file and outlines it. -/
def ofSource (path source : String) : Except OutlineError Outline :=
  match Script.Dialect.ofPath? path with
  | none => .error .unsupported
  | some dialect =>
    match Script.parse dialect source with
    | .error line => .error (.malformed path line)
    | .ok tree =>
      let characters := source.toList.toArray
      .ok (ofTree (fun node => node.span.textIn characters) tree)

end Outline

end CodeAtlas

import CodeAtlas.Disk.Basic
import CodeAtlas.Outline.Source
import CodeAtlas.Scan.Scope

namespace CodeAtlas

namespace Scan

/-- Larger files are left out; the size is in bytes. -/
def maxFileSize : Nat := 1024 * 1024

/-- Folders for other things than the sources of a project. -/
def reservedNames : List String :=
  [".git", ".context", "node_modules", ".next", ".turbo", ".cache", "build", "dist", "coverage",
    "out", "target", "vendor"]

/-- Whether a name is reserved, upper and lower case alike. -/
def isReserved (name : String) : Bool := reservedNames.contains name.toLower

/-- No path is long enough for more folders in one another. -/
def maxDepth : Nat := 2048

/-- Whether a file is one to be outlined. -/
def isSource (name : String) (size : Nat) : Bool :=
  (Script.Dialect.ofPath? name).isSome && size ≤ maxFileSize

variable {m : Type → Type} [Monad m]

/-- The rules in a file, if it is there. -/
def readRules (disk : Disk m) (path : String) : m (List IgnoreRule) := do
  return ((← disk.bytes? path).map IgnoreRule.ofFile).getD []

/-- The rules of the folder at the end of a way. -/
def readScope (disk : Disk m) (folder : List String) : m IgnoreScope := do
  let path (name : String) := Path.ofNames (folder ++ [name])
  return {
    depth := folder.length
    isRepository := (← disk.canonical? (path ".git")).isSome
    general := ← readRules disk (path ".ignore")
    shared := ← readRules disk (path ".gitignore")
    excluded := ← readRules disk (path ".git/info/exclude") }

/-- The scopes of the folders above the one at the end of a way, the innermost first. -/
def scopesAbove (disk : Disk m) (folder : List String) : m (List IgnoreScope) := do
  let scopes ← (List.range folder.length).mapM fun depth => readScope disk (folder.take depth)
  return scopes.reverse

/-- The ways to the sources below a folder, no deeper than given. -/
def below (disk : Disk m) (scopes : List IgnoreScope) (folder : List String) :
    Nat → m (List (List String))
  | 0 => return []
  | depth + 1 => do
    let scopes := (← readScope disk folder) :: scopes
    let found ← (← disk.list (Path.ofNames folder)).mapM fun entry => do
      let names := folder ++ [entry.name]
      if isReserved entry.name || !IgnoreScope.admits scopes names (entry.kind == .folder) then
        return []
      match entry.kind with
      | .folder => below disk scopes names depth
      | .file size => return if isSource entry.name size then [names] else []
      | .other => return []
    return found.flatten

/-- The sources of a project: their paths below its root, in order. A project may be one file. -/
def files (disk : Disk m) (root : String) : m (List String) := do
  let folder := Path.parts root
  if ← disk.isFile root then
    return if (Script.Dialect.ofPath? root).isSome then [""] else []
  let found ← below disk (← scopesAbove disk folder) folder maxDepth
  let paths := found.map fun names => "/".intercalate (names.drop folder.length)
  return paths.mergeSort fun a b => decide (a ≤ b)

end Scan

end CodeAtlas

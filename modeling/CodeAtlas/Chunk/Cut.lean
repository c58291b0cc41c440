import CodeAtlas.Chunk.Basic
import CodeAtlas.Outline.Source
import CodeAtlas.Text.Blank
import CodeAtlas.Text.Lines

namespace CodeAtlas.Chunk

/-- Declarations by first line; of those that start together the longest comes first. -/
def startsBefore (first second : Declared) : Bool :=
  first.firstLine < second.firstLine ||
    (first.firstLine == second.firstLine && second.lastLine ≤ first.lastLine)

/-- Keeps a declaration if it ends after the one kept last. -/
def keepOuter (kept : List Declared) (symbol : Declared) : List Declared :=
  match kept.getLast? with
  | some outer => if symbol.lastLine ≤ outer.lastLine then kept else kept ++ [symbol]
  | none => [symbol]

/-- The declarations that are in no other one, by first line. -/
def outermost (symbols : List Declared) : List Declared :=
  (symbols.mergeSort startsBefore).foldl keepOuter []

/-- A stretch of lines and the declaration it belongs to. -/
structure Stretch where
  first : Nat
  last : Nat
  symbol : Option (SymbolKind × String)

/-- The stretches of a file with `count` lines from line `next` on: each declaration that starts
there or later, and what lies between them. -/
def stretches (count next : Nat) : List Declared → List Stretch
  | [] => if next ≤ count then [⟨next, count, none⟩] else []
  | symbol :: rest =>
    if symbol.firstLine < next ∨ count < symbol.firstLine then stretches count next rest
    else
      let last := min symbol.lastLine count
      let gap := if next < symbol.firstLine then [⟨next, symbol.firstLine - 1, none⟩] else []
      gap ++ ⟨symbol.firstLine, last, some (symbol.kind, symbol.name)⟩ :: stretches count (last + 1) rest

/-- The last line of a window of `size` lines from `first` on; none if the lines are none, or too many to
be added in 64 bits. -/
def windowEnd? (first size : Nat) : Option Nat :=
  if 0 < size ∧ first + size < UInt64.size then some (first + size - 1) else none

/-- At most `count` windows from `first` to `last`. -/
def windowsUpTo? (size last : Nat) : Nat → Nat → Option (List (Nat × Nat))
  | 0, _ => some []
  | count + 1, first =>
    if last < first then some []
    else
      (windowEnd? first size).bind fun stop =>
        (windowsUpTo? size last count (min stop last + 1)).map ((first, min stop last) :: ·)

/-- The windows of at most `size` lines from `first` to `last`; none if the end of one cannot be told. -/
def windows? (size first last : Nat) : Option (List (Nat × Nat)) :=
  windowsUpTo? size last (last + 1 - first) first

/-- The chunk over some lines of a file. -/
def ofLines (lines : Array String) (path : String) (symbol : Option (SymbolKind × String))
    (window : Nat × Nat) : Chunk :=
  let body := (lines.extract (window.1 - 1) window.2).toList
  { path, symbol
    firstLine := window.1
    lastLine := window.2
    content := headerLabel ++ path ++ "\n" ++ Text.unlines body
    language := Script.Dialect.nameOf (Script.Dialect.ofPath? path) }

/-- Whether a window of a file has nothing but blank lines. -/
def isBlankWindow (lines : Array String) (window : Nat × Nat) : Bool :=
  (lines.extract (window.1 - 1) window.2).toList.all Text.isBlankText

/-- The chunks of a stretch. -/
def ofStretch? (options : ChunkOptions) (lines : Array String) (path : String)
    (stretch : Stretch) : Option (List Chunk) :=
  (windows? options.maxLines stretch.first stretch.last).map fun windows =>
    (windows.filter fun window => !(options.skipBlank && isBlankWindow lines window)).map
      (ofLines lines path stretch.symbol)

/-- The chunks of a file along the given declarations. -/
def cut (options : ChunkOptions) (path content : String) (symbols : List Declared) :
    Except (Failure ChunkError) (List Chunk) :=
  let lines := (Text.lines content).toArray
  match (stretches lines.size 1 (outermost symbols)).mapM (ofStretch? options lines path) with
  | some chunks => .ok chunks.flatten
  | none => .error .overflow

/-- The chunks of a file along the declarations found in it, of which there are none if the file
has no outline. -/
def ofSource (options : ChunkOptions) (path content : String) :
    Except (Failure ChunkError) (List Chunk) :=
  if Text.isBlankText content then .error (.error .emptyContent)
  else
    let symbols := match Outline.ofSource path content with
      | .ok outline => outline.symbols
      | .error _ => []
    cut options path content symbols

end CodeAtlas.Chunk

import CodeAtlas.Outline.Basic

namespace CodeAtlas

/-- Some lines of a file, counted from 1, with both ends. -/
structure Chunk where
  path : String
  firstLine : Nat
  lastLine : Nat
  /-- The header line and the lines of the file. -/
  content : String
  language : String
  /-- Kind and name of the declaration that the chunk is cut from. -/
  symbol : Option (SymbolKind × String)
  deriving Repr, DecidableEq

namespace Chunk

/-- Tells a chunk from all others: its path and its lines. -/
def id (chunk : Chunk) : String :=
  chunk.path ++ ":" ++ toString chunk.firstLine ++ ":" ++ toString chunk.lastLine

def lineCount (chunk : Chunk) : Nat := chunk.lastLine - chunk.firstLine + 1

def containsLine (chunk : Chunk) (line : Nat) : Bool :=
  chunk.firstLine ≤ line && line ≤ chunk.lastLine

/-- What the first line of a chunk says before its path. -/
def headerLabel : String := "File: "

end Chunk

/-- How files are cut into chunks. -/
structure ChunkOptions where
  maxLines : Nat
  /-- Whether chunks of blank lines alone are left out. -/
  skipBlank : Bool
  deriving Repr, DecidableEq

namespace ChunkOptions

def default : ChunkOptions := ⟨80, true⟩

end ChunkOptions

/-- How a computation ends without a result: with an error of its own, or because the program aborts, as
a number does not fit into 64 bits. -/
inductive Failure (ε : Type) where
  | error (error : ε)
  | overflow
  deriving Repr, DecidableEq

inductive ChunkError where
  /-- Chunks may have no lines. -/
  | noLines
  /-- The file is blank. -/
  | emptyContent
  deriving Repr, DecidableEq

namespace ChunkError

def message : ChunkError → String
  | noLines => "Invalid configuration: max_chunk_lines must be greater than 0"
  | emptyContent => "Empty content provided"

end ChunkError

/-- Options that chunks can be cut with. -/
def ChunkOptions.check (options : ChunkOptions) : Except ChunkError Unit :=
  if options.maxLines = 0 then .error .noLines else .ok ()

end CodeAtlas

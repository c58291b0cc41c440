import CodeAtlas.Project.Reading

namespace CodeAtlas

inductive EntryKind where
  | file (size : Nat)
  | folder
  | other
  deriving Repr, DecidableEq

/-- One of the things in a folder. -/
structure DiskEntry where
  name : String
  kind : EntryKind
  deriving Repr, DecidableEq

/-- Where a text is written: first to a temporary file, which then takes the place of the file. -/
structure SavePlace where
  path : String
  temporary : String
  /-- Whether the temporary file is removed if it cannot take that place. -/
  tidy : Bool
  deriving Repr, DecidableEq

/-- The operations on files, in a monad in which they happen. Missing folders are made on saving,
and it is said whether the text was saved. -/
structure Disk (m : Type → Type) where
  /-- The path of what there is at a path, without detours. -/
  canonical? : String → m (Option String)
  isFile : String → m Bool
  /-- The text of a file. -/
  read : String → m Reading
  /-- The bytes of a file. -/
  bytes? : String → m (Option ByteArray)
  /-- What is in a folder. -/
  list : String → m (List DiskEntry)
  save : SavePlace → String → m Bool

end CodeAtlas

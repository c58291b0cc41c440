namespace CodeAtlas

inductive Reading where
  | missing
  | text (content : String)
  /-- The reason comes from whatever holds the files. -/
  | unreadable (reason : String)
  deriving Repr, DecidableEq

/-- Why a file is left out. -/
inductive SkipReason where
  | missing
  | empty
  | unreadable (message : String)
  deriving Repr, DecidableEq

structure Skipped where
  path : String
  reason : SkipReason
  deriving Repr, DecidableEq

namespace Reading

/-- What is said about a file that cannot be read. -/
def failure (path reason : String) : String := s!"Failed to read {path}: {reason}"

/-- The text of a file, or why the file is left out. -/
def source (path : String) : Reading → Except SkipReason String
  | missing => .error .missing
  | text content => if content.isEmpty then .error .empty else .ok content
  | unreadable reason => .error (.unreadable (failure path reason))

end Reading

end CodeAtlas

import CodeAtlas.Disk.Basic
import CodeAtlas.Path.Basic

namespace CodeAtlas.Disk

/-- What the system says about a failure. -/
def reasonOf : IO.Error → String
  | .alreadyExists _ code details | .invalidArgument _ code details
  | .permissionDenied _ code details | .resourceExhausted _ code details
  | .inappropriateType _ code details | .noSuchThing _ code details
  | .otherError code details | .resourceBusy code details | .resourceVanished code details
  | .unsupportedOperation code details | .hardwareFault code details
  | .unsatisfiedConstraints code details | .illegalOperation code details
  | .protocolError code details | .timeExpired code details
  | .interrupted _ code details | .noFileOrDirectory _ code details =>
    s!"{details} (os error {code})"
  | .unexpectedEof => "unexpected end of file"
  | .userError message => message

/-- What comes of reading a file. -/
def readingOf : Except IO.Error ByteArray → Reading
  | .ok bytes =>
    match String.fromUTF8? bytes with
    | some text => .text text
    | none => .unreadable "stream did not contain valid UTF-8"
  | .error (.noFileOrDirectory ..) => .missing
  | .error error => .unreadable (reasonOf error)

def entryKindOf (type : IO.FS.FileType) (size : Nat) : EntryKind :=
  match type with
  | .dir => .folder
  | .file => .file size
  | _ => .other

/-- One of the things in a folder; links are not followed. -/
def entryOf (entry : IO.FS.DirEntry) : IO DiskEntry := do
  let metadata ← entry.path.symlinkMetadata
  return ⟨entry.fileName, entryKindOf metadata.type metadata.byteSize.toNat⟩

/-- Writes a text to the temporary file of a place, and moves that to its own. -/
def saveText (place : SavePlace) (text : String) : IO Bool := do
  try
    IO.FS.createDirAll (Path.directory place.temporary)
    IO.FS.writeFile place.temporary text
  catch _ => return false
  try
    IO.FS.rename place.temporary place.path
    return true
  catch _ =>
    if place.tidy then
      try IO.FS.removeFile place.temporary catch _ => pure ()
    return false

def machine : Disk IO where
  canonical? path := do
    try return some (← IO.FS.realPath path).toString catch _ => return none
  isFile path := do
    try return (← (← IO.FS.realPath path).metadata).type == .file catch _ => return false
  read path := do
    if path.contains '\x00' then
      return .unreadable "file name contained an unexpected NUL byte"
    return readingOf (← (IO.FS.readBinFile path).toBaseIO)
  bytes? path := do
    try return some (← IO.FS.readBinFile path) catch _ => return none
  list path := do
    try
      let folder ← IO.FS.realPath path
      return (← (← folder.readDir).mapM entryOf).toList
    catch _ => return []
  save place text := saveText place text

end CodeAtlas.Disk

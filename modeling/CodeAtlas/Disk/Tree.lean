import CodeAtlas.Disk.Basic
import CodeAtlas.Path.Basic

namespace CodeAtlas

inductive Tree where
  | file (bytes : ByteArray)
  | folder (entries : List (String × Tree))
  deriving Inhabited

namespace Tree

/-- Names on the way from the root. -/
abbrev Names := List String

/-- What there is at the end of a way. -/
def at? : Tree → Names → Option Tree
  | tree, [] => some tree
  | folder entries, name :: names => (entries.lookup name).bind fun inner => at? inner names
  | file _, _ :: _ => none

/-- Replaces an entry of a folder, or adds it at the end. -/
def putEntry (entries : List (String × Tree)) (name : String) (item : Tree) :
    List (String × Tree) :=
  if entries.any (·.1 == name) then
    entries.map fun entry => if entry.1 == name then (name, item) else entry
  else entries ++ [(name, item)]

/-- Puts an item at the end of a way and makes the folders on it; none if a file is on the way. -/
def put? (item : Tree) : Names → Tree → Option Tree
  | [], _ => some item
  | name :: names, folder entries => do
    let inner ← put? item names ((entries.lookup name).getD (folder []))
    return folder (putEntry entries name inner)
  | _ :: _, file _ => none

/-- The tree with an item at the end of a way, whatever was there; folders take the place of files
on the way. -/
def putAlways (item : Tree) : Names → Tree → Tree
  | [], _ => item
  | name :: names, folder entries =>
    folder (putEntry entries name (putAlways item names ((entries.lookup name).getD (folder []))))
  | name :: names, file _ => folder [(name, putAlways item names (folder []))]

/-- The tree with a file at a path. -/
def plant (tree : Tree) (path : String) (bytes : ByteArray) : Tree :=
  putAlways (file bytes) (Path.parts path) tree

/-- The tree with an empty folder at a path. -/
def plantFolder (tree : Tree) (path : String) : Tree :=
  putAlways (folder []) (Path.parts path) tree

/-- The tree without what is at the end of a way. -/
def remove : Names → Tree → Tree
  | [name], folder entries => folder (entries.filter (·.1 != name))
  | name :: names, folder entries =>
    match entries.lookup name with
    | some inner => folder (putEntry entries name (remove names inner))
    | none => folder entries
  | _, tree => tree

/-- Why there is nothing to be read at a path. -/
inductive Fault where
  | missing
  | notFolder
  | isFolder
  | nameTooLong
  | nameWithNul
  | notText
  deriving Repr, DecidableEq

def Fault.message : Fault → String
  | missing => "No such file or directory (os error 2)"
  | notFolder => "Not a directory (os error 20)"
  | isFolder => "Is a directory (os error 21)"
  | nameTooLong => "File name too long (os error 36)"
  | nameWithNul => "file name contained an unexpected NUL byte"
  | notText => "stream did not contain valid UTF-8"

/-- Names have at most this many bytes. -/
def maxNameBytes : Nat := 255

/-- The segments of a path. A path that ends in `/` also asks for a folder, as a point does. -/
def segments (path : String) : List String :=
  let parts := (Path.splitAt (· == '/') path.toList).map String.ofList
  parts.filter (· != "") ++ (if path.endsWith "/" then ["."] else [])

/-- The way without detours to what a path leads to, after the way `done`, last name first. -/
def locate (tree : Tree) : Names → List String → Except Fault Names
  | done, [] => .ok done.reverse
  | done, segment :: rest =>
    match tree.at? done.reverse with
    | none => .error .missing
    | some (file _) => .error .notFolder
    | some (folder entries) =>
      if segment = "." then locate tree done rest
      else if segment = ".." then locate tree done.tail rest
      else if maxNameBytes < segment.utf8ByteSize then .error .nameTooLong
      else if (entries.lookup segment).isSome then locate tree (segment :: done) rest
      else .error .missing

/-- What a path leads to. -/
def find (tree : Tree) (path : String) : Except Fault Tree := do
  if path.contains '\x00' then throw .nameWithNul
  let names ← locate tree [] (segments path)
  match tree.at? names with
  | some item => return item
  | none => throw .missing

/-- The text of the file at a path. -/
def textAt (tree : Tree) (path : String) : Except Fault String := do
  match ← tree.find path with
  | folder _ => throw .isFolder
  | file bytes =>
    match String.fromUTF8? bytes with
    | some text => return text
    | none => throw .notText

def read (tree : Tree) (path : String) : Reading :=
  match tree.textAt path with
  | .ok text => .text text
  | .error .missing => .missing
  | .error fault => .unreadable fault.message

def isFolder (tree : Tree) (names : Names) : Bool :=
  match tree.at? names with
  | some (folder _) => true
  | _ => false

/-- Makes the folders of a path that are missing, after the way `done`, last name first; yields the
way to the last of them. -/
def makeFolders? : Tree → Names → List String → Option (Tree × Names)
  | tree, done, [] => if tree.isFolder done.reverse then some (tree, done.reverse) else none
  | tree, done, segment :: rest =>
    if segment = "." then makeFolders? tree done rest
    else if segment = ".." then makeFolders? tree done.tail rest
    else
      let way := (segment :: done).reverse
      match tree.at? way with
      | some (folder _) => makeFolders? tree (segment :: done) rest
      | some (file _) => none
      | none => do makeFolders? (← put? (folder []) way tree) (segment :: done) rest

/-- Writes a file and the folders above it; none if that is not possible. -/
def write? (tree : Tree) (path : String) (bytes : ByteArray) : Option Tree := do
  let parts := segments path
  let (tree, above) ← makeFolders? tree [] parts.dropLast
  let way := above ++ [← parts.getLast?]
  if tree.isFolder way then none else put? (file bytes) way tree

/-- Removes the file or folder at a path. -/
def delete (tree : Tree) (path : String) : Tree :=
  match locate tree [] (segments path) with
  | .ok names => tree.remove names
  | .error _ => tree

/-- Saves a text; also says whether it was saved. -/
def save (tree : Tree) (place : SavePlace) (text : String) : Bool × Tree :=
  match tree.write? place.temporary text.toUTF8 with
  | none => (false, tree)
  | some written =>
    match (written.delete place.temporary).write? place.path text.toUTF8 with
    | some saved => (true, saved)
    | none => (false, if place.tidy then written.delete place.temporary else written)

def entryOf : String × Tree → DiskEntry
  | (name, file bytes) => ⟨name, .file bytes.size⟩
  | (name, folder _) => ⟨name, .folder⟩

/-- A tree as a disk. -/
def disk : Disk (StateM Tree) where
  canonical? path := do
    match (← get).find path, locate (← get) [] (segments path) with
    | .ok _, .ok names => return some (Path.ofNames names)
    | _, _ => return none
  isFile path := do
    match (← get).find path with
    | .ok (file _) => return true
    | _ => return false
  read path := do return (← get).read path
  bytes? path := do
    match (← get).find path with
    | .ok (file bytes) => return some bytes
    | _ => return none
  list path := do
    match (← get).find path with
    | .ok (folder entries) => return entries.map entryOf
    | _ => return []
  save place text := do
    let (saved, tree) := (← get).save place text
    set tree
    return saved

end Tree

end CodeAtlas

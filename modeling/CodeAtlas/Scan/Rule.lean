import CodeAtlas.Path.Basic
import CodeAtlas.Scan.Glob

namespace CodeAtlas

inductive Verdict where
  | ignored
  | kept
  deriving Repr, DecidableEq

structure IgnoreRule where
  glob : Pattern
  verdict : Verdict
  foldersOnly : Bool
  deriving Repr, DecidableEq

namespace IgnoreRule

/-- A line without the blanks at its end, unless the last one follows a backslash. -/
def trimLine (line : List Char) : List Char :=
  if ['\\', ' '].isSuffixOf line then line else Text.trimBack line

/-- A line without the backslash that keeps its first character from being a sign. -/
def unescapeFront? : List Char → Option (List Char)
  | '\\' :: c :: rest => if c = '!' || c = '#' then some (c :: rest) else none
  | _ => none

/-- A line without the slash at its end, which may follow a backslash; none if there is none. -/
def dropSlash? (line : List Char) : Option (List Char) :=
  match line.reverse with
  | '/' :: '\\' :: back => some back.reverse
  | '/' :: back => some back.reverse
  | _ => none

/-- The glob of a rule: without a slash in it, it stands for files in all folders below. -/
def globText (anchored : Bool) (line : List Char) : List Char :=
  let line :=
    if anchored || line.contains '/' || line = ['*', '*'] then line else ['*', '*', '/'] ++ line
  if ['/', '*', '*'].isSuffixOf line then line ++ ['/', '*'] else line

/-- Reads what follows the mark that a rule may begin with. -/
def ofBody? (verdict : Verdict) (anchored : Bool) (body : List Char) : Option IgnoreRule := do
  let line := (dropSlash? body).getD body
  let glob ← Glob.parse? (String.ofList (globText anchored line))
  return ⟨glob, verdict, (dropSlash? body).isSome⟩

/-- Reads a body that may begin with a slash, which anchors it. -/
def ofAnchored? (verdict : Verdict) : List Char → Option IgnoreRule
  | '/' :: body => ofBody? verdict true body
  | body => ofBody? verdict false body

/-- Reads the rule on a line. There is none on a line of blanks or a comment, nor on one whose glob
is malformed. -/
def ofLine? (line : List Char) : Option IgnoreRule :=
  if line.head? = some '#' then none
  else
    let line := trimLine line
    match unescapeFront? line, line with
    | some body, _ => ofBody? .ignored false body
    | none, [] => none
    | none, '!' :: body => ofAnchored? .kept body
    | none, body => ofAnchored? .ignored body

/-- The bytes of the lines of a file. -/
def byteLines (bytes : List UInt8) : List (List UInt8) :=
  bytes.foldr (fun byte lines =>
    match lines with
    | line :: others => if byte = 10 then [] :: lines else (byte :: line) :: others
    | [] => if byte = 10 then [[], []] else [[byte]]) []

/-- The lines of a file up to the first one that is no text. -/
def textLines : List (List UInt8) → List String
  | [] => []
  | line :: lines =>
    match String.fromUTF8? ⟨line.toArray⟩ with
    | some text => text :: textLines lines
    | none => []

/-- A line without the carriage return at its end. -/
def dropReturn (line : List Char) : List Char :=
  if line.getLast? = some '\r' then line.dropLast else line

/-- The rules in a file, which may begin with byte order marks. -/
def ofFile (bytes : ByteArray) : List IgnoreRule :=
  let lines := (textLines (byteLines bytes.toList)).map fun line => dropReturn line.toList
  let lines :=
    match lines with
    | first :: others => first.dropWhile (· == '\ufeff') :: others
    | [] => []
  lines.filterMap ofLine?

/-- What the last rule that covers a path says about it. -/
def verdict? (rules : List IgnoreRule) (path : String) (isFolder : Bool) : Option Verdict :=
  (rules.reverse.find? fun rule =>
    (isFolder || !rule.foldersOnly) && Glob.covers rule.glob path).map (·.verdict)

end IgnoreRule

end CodeAtlas

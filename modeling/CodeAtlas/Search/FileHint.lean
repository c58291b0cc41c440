import CodeAtlas.Path.Basic
import CodeAtlas.Text.Lines

namespace CodeAtlas.FileHint

/-- What stands before and after the first colon. -/
def splitAtColon? (line : List Char) : Option (List Char × List Char) :=
  let before := line.takeWhile (· != ':')
  match line.drop before.length with
  | _ :: after => some (before, after)
  | [] => none

/-- The path after a label, which is one of two words in any case with a colon. -/
def labeledPath? (line : List Char) : Option (List Char) := do
  let (label, after) ← splitAtColon? line
  let word := (Text.trim label).map Char.toLower
  let path := Text.trim after
  if (word == "file".toList || word == "path".toList) && !path.isEmpty then some path else none

/-- A text without the ends of block comments that it ends with, given from back to front. -/
def dropCommentEnds : List Char → List Char
  | '/' :: '*' :: rest => dropCommentEnds rest
  | rest => rest

/-- What a line comment or the first line of a block comment says. -/
def commentBody? : List Char → Option (List Char)
  | '/' :: '*' :: rest =>
    some (Text.trim (dropCommentEnds (Text.trimBack rest).reverse).reverse)
  | '/' :: '/' :: rest => some (Text.trim rest)
  | '-' :: '-' :: rest => some (Text.trim rest)
  | '#' :: rest => some (Text.trim rest)
  | _ => none

/-- Whether the last part of a path ends in a point and ASCII letters and digits, and starts with
something else. -/
def hasExtension (token : List Char) : Bool :=
  let back := (token.reverse.takeWhile (· != '/'))
  let suffix := back.takeWhile (· != '.')
  match back.drop suffix.length with
  | _ :: stem => !stem.isEmpty && !suffix.isEmpty && suffix.all Char.isAlphanum
  | [] => false

/-- The first word of a comment, if it names a file. -/
def firstToken? (body : List Char) : Option (List Char) := do
  let token ← (Text.words body).head?
  if hasExtension token then some token else none

/-- What the first lines of a text say, blank ones left out at the front. -/
def pathInLines? : List (List Char) → Option (List Char)
  | [] => none
  | first :: rest =>
    match labeledPath? first with
    | some path => some path
    | none =>
      if ['\x60', '\x60', '\x60'].isPrefixOf first then do
        let body ← commentBody? (← rest.head?)
        labeledPath? body <|> firstToken? body
      else none

/-- The lines of a text without blanks at their ends, from the first that is not blank. -/
def trimmedLines (text : String) : List (List Char) :=
  ((Text.lines text).map fun line => Text.trim line.toList).dropWhile List.isEmpty

/-- The file that a text belongs to. -/
def path? (text : String) : Option String :=
  (pathInLines? (trimmedLines text)).map fun path => Path.normalize (String.ofList path)

end CodeAtlas.FileHint

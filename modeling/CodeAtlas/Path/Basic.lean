import CodeAtlas.Text.Blank

namespace CodeAtlas.Path

/-- Whether a character stands between two parts. -/
def isSeparator (c : Char) : Bool := c == '/' || c == '\\'

/-- The stretches of a text between the characters that satisfy `p`, empty ones included. -/
def splitAt (p : Char → Bool) : List Char → List (List Char)
  | [] => [[]]
  | c :: rest =>
    if p c then [] :: splitAt p rest
    else
      match splitAt p rest with
      | first :: others => (c :: first) :: others
      | [] => [[c]]

/-- The parts so far, last first, after one more segment: nothing for an empty one or a point, one
part less for two points. Above an absolute path there is nothing. -/
def push (absolute : Bool) (parts : List (List Char)) (segment : List Char) : List (List Char) :=
  if segment == [] || segment == ['.'] then parts
  else if segment == ['.', '.'] then
    match parts with
    | last :: others =>
      if last == ['.', '.'] then (if absolute then parts else segment :: parts) else others
    | [] => if absolute then [] else [segment]
  else segment :: parts

/-- Parts with `/` between them. -/
def join (parts : List (List Char)) : List Char := ['/'].intercalate parts

def normalizeChars (path : List Char) : List Char :=
  let trimmed := Text.trim path
  let absolute := trimmed.head?.any isSeparator
  let parts := ((splitAt isSeparator trimmed).foldl (push absolute) []).reverse
  if absolute then '/' :: join parts else join parts

/-- The one spelling of a path: no blanks at its ends, `/` between parts, no point as a part, and
two points only at the front. -/
def normalize (path : String) : String := String.ofList (normalizeChars path.toList)

/-- What stands before the last `/`, nothing if there is none. -/
def directory (path : String) : String :=
  String.ofList (((path.toList.reverse.dropWhile (· != '/')).drop 1).reverse)

/-- The parts of a path; those that say nothing are left out. -/
def parts (path : String) : List String :=
  ((splitAt (· == '/') path.toList).map String.ofList).filter fun part => part != "" && part != "."

/-- The path from the root through folders of these names. -/
def ofNames (names : List String) : String := "/" ++ "/".intercalate names

/-- What follows the last point of the last part, unless that is the first character of the part
or the part leads upwards. -/
def extension? (path : String) : Option String :=
  match (parts path).getLast? with
  | none => none
  | some name =>
    if name == ".." then none
    else
      let back := name.toList.reverse
      let suffix := back.takeWhile (· != '.')
      match back.drop suffix.length with
      | [] => none
      | [_] => none
      | _ => some (String.ofList suffix.reverse)

/-- A path below another one; an absolute path stands for itself. -/
def below (base path : String) : String :=
  if path.startsWith "/" then path
  else if base == "" || base.endsWith "/" then base ++ path
  else base ++ "/" ++ path

end CodeAtlas.Path

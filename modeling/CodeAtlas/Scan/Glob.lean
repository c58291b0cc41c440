import CodeAtlas.Pattern.Basic

namespace CodeAtlas.Glob

/-- A glob cut into its signs. -/
inductive Sign where
  | plain (c : Char)
  /-- A character after a backslash. -/
  | escaped (c : Char)
  | question
  | star
  | oneOf (negated : Bool) (ranges : List (Char × Char))
  | opening
  | comma
  | closing
  deriving Repr, DecidableEq

/-- The ranges of a class, last first, after one more character; none if a range goes backwards.
A dash at the front stands for itself, and so does a bracket there. -/
def addToClass? (ranges : List (Char × Char)) (inRange : Bool) (c : Char) :
    Option (List (Char × Char) × Bool) :=
  match ranges, inRange with
  | (first, _) :: others, true => if c < first then none else some ((first, c) :: others, false)
  | _ :: _, false => if c = '-' then some (ranges, true) else some ((c, c) :: ranges, false)
  | [], _ => some ([(c, c)], false)

/-- What reading a class comes to. -/
inductive ClassReading where
  | class (ranges : List (Char × Char)) (rest : List Char)
  | unclosed
  | malformed

/-- Reads a class up to its bracket. A dash before that stands for itself. -/
def readClass (ranges : List (Char × Char)) (inRange : Bool) : List Char → ClassReading
  | [] => .unclosed
  | c :: rest =>
    if c = ']' ∧ ranges ≠ [] then
      .class ((if inRange then ('-', '-') :: ranges else ranges).reverse) rest
    else
      match addToClass? ranges inRange c with
      | some (ranges, inRange) => readClass ranges inRange rest
      | none => .malformed

/-- The signs of a glob of at most so many characters; none if a class is malformed or nothing
follows a backslash. `classes` says whether brackets may begin classes: after one that is not closed
they stand for themselves. -/
def signs? : Nat → Bool → List Char → Option (List Sign)
  | 0, _, _ => some []
  | _, _, [] => some []
  | n + 1, classes, c :: rest =>
    match c with
    | '?' => (signs? n classes rest).map (.question :: ·)
    | '*' => (signs? n classes rest).map (.star :: ·)
    | '\x7b' => (signs? n classes rest).map (.opening :: ·)
    | '\x7d' => (signs? n classes rest).map (.closing :: ·)
    | ',' => (signs? n classes rest).map (.comma :: ·)
    | '\\' =>
      match rest with
      | [] => none
      | c :: rest => (signs? n classes rest).map (.escaped c :: ·)
    | '[' =>
      if classes then
        let negated := rest.head? == some '!' || rest.head? == some '^'
        match readClass [] false (if negated then rest.tail else rest) with
        | .class ranges rest => (signs? n classes rest).map (.oneOf negated ranges :: ·)
        | .unclosed => (signs? n false rest).map (.plain c :: ·)
        | .malformed => none
      else (signs? n classes rest).map (.plain c :: ·)
    | _ => (signs? n classes rest).map (.plain c :: ·)

inductive Piece where
  | literal (c : Char)
  /-- Any byte of a name. -/
  | any
  /-- Any part of a name. -/
  | stars
  /-- Any folders at the front. -/
  | front
  /-- Folders in between, or none. -/
  | between
  /-- Everything below a folder. -/
  | inside
  | oneOf (negated : Bool) (ranges : List (Char × Char))
  | alternates (branches : List (List Piece))
  deriving Repr

/-- Braces that are open: what stands before them and their branches so far, each last first. -/
structure Level where
  before : List Piece
  branches : List (List Piece)

/-- Whether nothing more follows in a branch. -/
def branchEnds (inBraces : Bool) : List Sign → Bool
  | [] => true
  | .comma :: _ => inBraces
  | .closing :: _ => inBraces
  | _ => false

/-- Whether two stars after this character may stand for folders. -/
def beginsName (inBraces : Bool) (last : Option Char) : Bool :=
  last == some '/' || (inBraces && (last == some ',' || last == some '\x7b'))

/-- Puts two stars for folders in the place of the last piece. -/
def joinFolders (piece : Piece) : List Piece → List Piece
  | .front :: pieces => .front :: pieces
  | .inside :: pieces => .inside :: pieces
  | _ :: pieces => piece :: pieces
  | [] => [piece]

/-- Puts pieces together, `done` being those read so far, last first, and `last` the last character;
none if braces do not pair up. Two stars stand for folders only between the ends of names. -/
def assemble? (last : Option Char) (levels : List Level) (done : List Piece) :
    List Sign → Option (List Piece)
  | [] => if levels.isEmpty then some done.reverse else none
  | .plain c :: rest => assemble? (some c) levels (.literal c :: done) rest
  | .escaped c :: rest => assemble? (some c) levels (.literal c :: done) rest
  | .question :: rest => assemble? (some '?') levels (.any :: done) rest
  | .oneOf negated ranges :: rest =>
    assemble? (some ']') levels (.oneOf negated ranges :: done) rest
  | .opening :: rest => assemble? (some '\x7b') (⟨done, []⟩ :: levels) [] rest
  | .comma :: rest =>
    match levels with
    | [] => assemble? (some ',') [] (.literal ',' :: done) rest
    | level :: levels =>
      assemble? (some ',') ({ level with branches := done.reverse :: level.branches } :: levels) []
        rest
  | .closing :: rest =>
    match levels with
    | [] => none
    | level :: levels =>
      let piece := Piece.alternates (done.reverse :: level.branches).reverse
      assemble? (some '\x7d') levels (piece :: level.before) rest
  | .star :: .star :: .plain '/' :: rest =>
    if done.isEmpty then assemble? (some '/') levels [.front] rest
    else if beginsName (!levels.isEmpty) last then
      assemble? (some '/') levels (joinFolders .between done) rest
    else assemble? (some '/') levels (.literal '/' :: .stars :: .stars :: done) rest
  | .star :: .star :: rest =>
    if done.isEmpty then
      assemble? (some '*') levels (if rest.isEmpty then [.front] else [.stars, .stars]) rest
    else if beginsName (!levels.isEmpty) last && branchEnds (!levels.isEmpty) rest then
      assemble? (some '*') levels (joinFolders .inside done) rest
    else assemble? (some '*') levels (.stars :: .stars :: done) rest
  | .star :: rest => assemble? (some '*') levels (.stars :: done) rest

/-- The bytes of a text as characters. -/
def bytesOf (text : String) : List Char :=
  text.toUTF8.toList.map fun byte => Char.ofNat byte.toNat

def anyByte : CharSet := .ofRanges [(0, 255)]

def nameByte : CharSet := anyByte.diff (.singleton '/')

/-- The bytes that a range of characters stands for: those of both ends and those between the last
byte of the first and the first byte of the last. -/
def rangeBytes (range : Char × Char) : List (Nat × Nat) :=
  let first := (bytesOf (String.singleton range.1)).map (·.toNat)
  let last := (bytesOf (String.singleton range.2)).map (·.toNat)
  let single (byte : Nat) := (byte, byte)
  if range.1 = range.2 then first.map single
  else first.map single ++ last.map single ++ [(first.getLast?.getD 0, last.head?.getD 0)]

def classBytes (negated : Bool) (ranges : List (Char × Char)) : CharSet :=
  let bytes := CharSet.ofRanges (ranges.flatMap rangeBytes)
  if negated then anyByte.diff bytes else bytes

def slash : Pattern := .oneOf (.singleton '/')

def anyBytes : Pattern := .repeated (.oneOf anyByte) 0 none

/-- Characters one after the other. -/
def literal (text : List Char) : Pattern :=
  text.foldr (fun c rest => .seq (.oneOf (.singleton c)) rest) .empty

/-- Everything up to a slash. -/
def throughSlash : Pattern := .seq anyBytes slash

mutual

/-- Whether a piece stands for nothing at all. -/
def Piece.isSilent : Piece → Bool
  | .alternates branches => allSilent branches
  | _ => false

def silent : List Piece → Bool
  | [] => true
  | piece :: pieces => piece.isSilent && silent pieces

def allSilent : List (List Piece) → Bool
  | [] => true
  | branch :: branches => silent branch && allSilent branches

end

mutual

def Piece.pattern : Piece → Pattern
  | .literal c => Glob.literal (bytesOf (String.singleton c))
  | .any => .oneOf nameByte
  | .stars => .repeated (.oneOf nameByte) 0 none
  | .front => .either (.either .empty slash) throughSlash
  | .between => .either slash (.seq slash throughSlash)
  | .inside => .seq slash anyBytes
  | .oneOf negated ranges => .oneOf (classBytes negated ranges)
  | .alternates branches => (either? branches).getD .empty

def sequence : List Piece → Pattern
  | [] => .empty
  | piece :: pieces => .seq piece.pattern (sequence pieces)

/-- The branches that stand for anything, if there are any. -/
def either? : List (List Piece) → Option Pattern
  | [] => none
  | branch :: branches =>
    let others := either? branches
    if silent branch then others
    else
      match others with
      | some others => some (.either (sequence branch) others)
      | none => some (sequence branch)

end

/-- Reads a glob; none if it is malformed. Two stars alone stand for every path. -/
def parse? (text : String) : Option Pattern := do
  let characters := text.toList
  match ← assemble? none [] [] (← signs? characters.length true characters) with
  | [.front] => return anyBytes
  | pieces => return sequence pieces

/-- Whether a glob stands for a path. -/
def covers (glob : Pattern) (path : String) : Bool :=
  let bytes := (bytesOf path).toArray
  (glob.reach bytes [0]).contains bytes.size

end CodeAtlas.Glob

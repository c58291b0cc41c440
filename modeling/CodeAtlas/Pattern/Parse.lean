import CodeAtlas.Pattern.Basic
import CodeAtlas.Pattern.Classes

namespace CodeAtlas.Pattern

/-- What the flags say. -/
structure Flags where
  ignoreCase : Bool
  multiLine : Bool
  dotAll : Bool
  returns : Bool
  unicode : Bool
  spaced : Bool

def Flags.default : Flags := ⟨false, false, false, false, true, false⟩

/-- A reading of a pattern: what is left of it, the flags in force and the names of groups. -/
structure Reading where
  rest : List Char
  flags : Flags
  names : List String

abbrev Reader := StateT Reading Option

/-- A pattern and how deep groups, sequences and repetitions nest in it; none for a change of
flags, which cannot be repeated. -/
abbrev Item := Option (Pattern × Nat)

namespace Reader

def flags : Reader Flags := do return (← get).flags

def setFlags (flags : Flags) : Reader Unit := modify fun r => { r with flags }

def peek? : Reader (Option Char) := do return (← get).rest.head?

def second? : Reader (Option Char) := do return (← get).rest[1]?

/-- The next character, which must be there. -/
def peek : Reader Char := do (← peek?)

def skip : Reader Unit := modify fun r => { r with rest := r.rest.tail }

def next : Reader Char := do
  let c ← peek
  skip
  return c

/-- What is left after blanks and the comments that number signs begin. -/
def afterBlanks : Bool → List Char → List Char
  | _, [] => []
  | true, c :: rest => afterBlanks (c != '\n') rest
  | false, c :: rest =>
    if Text.isBlank c then afterBlanks false rest
    else if c == '#' then afterBlanks true rest
    else c :: rest

/-- Skips blanks and comments if they do not count. -/
def skipBlanks : Reader Unit :=
  modify fun r => if r.flags.spaced then { r with rest := afterBlanks false r.rest } else r

/-- The next character, and then what does not count. -/
def nextSpaced : Reader Char := do
  let c ← next
  skipBlanks
  return c

/-- Skips a text if it comes next, and says whether it did. -/
def accept (text : String) : Reader Bool := do
  let r ← get
  if text.toList.isPrefixOf r.rest then
    set { r with rest := r.rest.drop text.length }
    return true
  return false

/-- Skips the first of some texts that comes next, if one does. -/
def acceptAny : List String → Reader Bool
  | [] => return false
  | text :: others => do
    if ← accept text then return true
    acceptAny others

def expect (c : Char) : Reader Unit := do
  guard ((← next) == c)

/-- The longest run of characters that satisfy `p`. -/
def takeWhile (p : Char → Bool) : Reader (List Char) := do
  let r ← get
  let run := r.rest.takeWhile p
  set { r with rest := r.rest.drop run.length }
  return run

/-- Characters that satisfy `p`, with nothing that counts between them. -/
def takeSpaced (p : Char → Bool) : Nat → Reader (List Char)
  | 0 => return []
  | fuel + 1 => do
    match ← peek? with
    | some c =>
      if p c then
        let _ ← nextSpaced
        return c :: (← takeSpaced p fuel)
      else return []
    | none => return []

/-- Characters that satisfy `p`, as many as there are. -/
def takeAllSpaced (p : Char → Bool) : Reader (List Char) := do
  takeSpaced p ((← get).rest.length + 1)

end Reader

open Reader

/-- A set of characters as the flags have it. -/
def caseless (flags : Flags) (set : CharSet) : CharSet :=
  if !flags.ignoreCase then set else if flags.unicode then set.foldCase else set.foldAsciiCase

/-- A set or, if `negated`, what is not in it; without Unicode only ASCII may be left. -/
def settle (flags : Flags) (negated : Bool) (set : CharSet) : Reader CharSet := do
  let set := if negated then set.complement else set
  guard (flags.unicode || set.isAscii)
  return set

def hexValue? (c : Char) : Option Nat :=
  if c.isDigit then some (c.toNat - '0'.toNat)
  else if 'a' ≤ c && c ≤ 'f' then some (c.toNat - 'a'.toNat + 10)
  else if 'A' ≤ c && c ≤ 'F' then some (c.toNat - 'A'.toNat + 10)
  else none

/-- The character with a number in hexadecimal digits. -/
def charOfHex? (digits : List Char) : Option Char := do
  let code ← digits.foldlM (fun code c => do return code * 16 + (← hexValue? c)) 0
  if code.isValidChar then some (Char.ofNat code) else none

/-- The digits of a character by number, `count` of them. -/
def fixedHex : Nat → Reader (List Char)
  | 0 => return []
  | count + 1 => do
    let c ← nextSpaced
    guard (hexValue? c).isSome
    return c :: (← fixedHex count)

/-- What a backslash and the characters after it stand for. -/
inductive Escape where
  /-- A character; `byte` says that it was given by two hexadecimal digits. -/
  | char (c : Char) (byte : Bool)
  | set (set : CharSet)
  | anchor (anchor : Anchor)

/-- A character by its number, after the letter that says how many digits it has. -/
def hexEscape (digits : Nat) : Reader Escape := do
  skipBlanks
  if (← peek) == '\x7b' then
    let _ ← nextSpaced
    let found ← takeAllSpaced (· != '\x7d')
    expect '\x7d'
    skipBlanks
    guard !found.isEmpty
    return .char (← charOfHex? found) false
  else return .char (← charOfHex? (← fixedHex digits)) (digits == 2)

/-- A property, after the letter `p` or `P`. -/
def propertyEscape (negated : Bool) : Reader Escape := do
  skipBlanks
  let flags ← flags
  guard flags.unicode
  let (set, differs) ←
    if (← peek) == '\x7b' then do
      let _ ← nextSpaced
      let text ← takeAllSpaced (· != '\x7d')
      expect '\x7d'
      let name := text.takeWhile fun c => c != ':' && c != '=' && c != '!'
      match text.drop name.length with
      | '!' :: '=' :: value => do pure (← CharSet.ofProperty? name (some value), true)
      | ':' :: value => do pure (← CharSet.ofProperty? name (some value), false)
      | '=' :: value => do pure (← CharSet.ofProperty? name (some value), false)
      | _ => do pure (← CharSet.ofProperty? text none, false)
    else do
      let c ← nextSpaced
      guard (c != '\\')
      pure (← CharSet.ofProperty? [c] none, false)
  return .set (← settle flags (negated != differs) (caseless flags set))

/-- The kind of edge of a word that is named in braces, if what comes next in braces can be a name
at all. -/
def namedEdge? : Reader (Option WordEdge) := do
  let before ← get
  if (← peek?) != some '\x7b' then return none
  let _ ← nextSpaced
  let isNameChar := fun (c : Char) => c.isAlpha || c == '-'
  if !isNameChar (← peek) then
    set before
    return none
  let name ← takeAllSpaced isNameChar
  expect '\x7d'
  match String.ofList name with
  | "start" => return some .start
  | "end" => return some .stop
  | "start-half" => return some .startHalf
  | "end-half" => return some .stopHalf
  | _ => failure

def words (flags : Flags) : CharSet := if flags.unicode then .word else .asciiWord

/-- What follows a backslash. -/
def escape : Reader Escape := do
  let flags ← flags
  let unicode := flags.unicode
  let c ← next
  let plain (c : Char) : Reader Escape := return .char c false
  let named (negated : Bool) (set : CharSet) : Reader Escape := do
    return .set (← settle flags negated set)
  match c with
  | 'x' => hexEscape 2
  | 'u' => hexEscape 4
  | 'U' => hexEscape 8
  | 'p' => propertyEscape false
  | 'P' => propertyEscape true
  | 'd' => named false (if unicode then .digit else .asciiDigit)
  | 'D' => named true (if unicode then .digit else .asciiDigit)
  | 's' => named false (if unicode then .blank else .asciiBlank)
  | 'S' => named true (if unicode then .blank else .asciiBlank)
  | 'w' => named false (words flags)
  | 'W' => named true (words flags)
  | 'a' => plain '\x07'
  | 'f' => plain '\x0c'
  | 't' => plain '\t'
  | 'n' => plain '\n'
  | 'r' => plain '\r'
  | 'v' => plain '\x0b'
  | 'A' => return .anchor .textStart
  | 'z' => return .anchor .textEnd
  | 'b' => return .anchor (.word ((← namedEdge?).getD .boundary) (words flags))
  | 'B' => return .anchor (.word .inside (words flags))
  | '<' => return .anchor (.word .start (words flags))
  | '>' => return .anchor (.word .stop (words flags))
  | _ =>
    guard (c.toNat < 0x80 && !c.isAlphanum)
    plain c

/-- The character of an escape inside a class. -/
def Escape.asChar : Escape → Reader Char
  | char c _ => return c
  | _ => failure

/-- A character as a member of a class. Without Unicode it must be ASCII. -/
def classChar (c : Char) : Reader CharSet := do
  guard ((← flags).unicode || c.toNat < 0x80)
  return .singleton c

/-- One member of a class, before it is known whether a range starts with it. -/
def classMember : Reader Escape := do
  let c ← next
  if c == '\\' then escape else return .char c false

/-- A member or a range of a class. -/
def classRange : Reader CharSet := do
  let first ← classMember
  skipBlanks
  let dash ← peek
  let r ← get
  let after := if r.flags.spaced then afterBlanks false r.rest.tail else r.rest.tail
  if dash != '-' || after.head? == some ']' || after.head? == some '-' then
    match first with
    | .char c _ => classChar c
    | .set set => return set
    | .anchor _ => failure
  else
    let _ ← nextSpaced
    let last ← (← classMember).asChar
    let first ← first.asChar
    guard (first ≤ last)
    guard ((← flags).unicode || last.toNat < 0x80)
    return .ofChars first last

/-- A class by name, between brackets and colons; nothing is read if there is none. -/
def namedClass? : Reader (Option CharSet) := do
  let before ← get
  if !(← accept "[:") then return none
  let negated ← accept "^"
  let name ← takeWhile (· != ':')
  let closed ← accept ":]"
  match if closed then CharSet.ofBracketName? (String.ofList name) else none with
  | some found =>
    let flags ← flags
    return some (← settle flags negated (caseless flags found))
  | none =>
    set before
    return none

/-- How the operands of a class are combined. -/
inductive SetOp where
  | inter | diff | symmDiff

def SetOp.apply (flags : Flags) (op : SetOp) (left right : CharSet) : CharSet :=
  let left := caseless flags left
  let right := caseless flags right
  match op with
  | inter => left.inter right
  | diff => left.diff right
  | symmDiff => left.symmDiff right

/-- What of a class has been read: what its operator is applied to, and the operand at hand. -/
structure ClassReading where
  left : Option (CharSet × SetOp)
  union : CharSet

namespace ClassReading

def value (flags : Flags) (reading : ClassReading) : CharSet :=
  match reading.left with
  | none => reading.union
  | some (left, op) => op.apply flags left reading.union

def add (reading : ClassReading) (set : CharSet) : ClassReading :=
  { reading with union := reading.union.union set }

/-- The class so far becomes the left operand. -/
def operator (flags : Flags) (reading : ClassReading) (op : SetOp) : ClassReading :=
  ⟨some (reading.value flags, op), .empty⟩

end ClassReading

/-- The dashes that a class begins with. -/
def leadingDashes : Nat → Reader Bool
  | 0 => return false
  | fuel + 1 => do
    if (← peek) == '-' then
      let _ ← nextSpaced
      let _ ← leadingDashes fuel
      return true
    else return false

mutual

/-- A class, after its opening bracket, and how deep classes nest in it. -/
def bracket : Nat → Reader (CharSet × Nat)
  | 0 => failure
  | fuel + 1 => do
    skipBlanks
    let negated := (← peek) == '^'
    if negated then let _ ← nextSpaced
    let dashes ← leadingDashes ((← get).rest.length + 1)
    let start := if dashes then CharSet.singleton '-' else .empty
    let closing := !dashes && (← peek) == ']'
    if closing then let _ ← nextSpaced
    let (set, depth) ← members fuel
      ⟨none, if closing then .singleton ']' else start⟩
    let flags ← flags
    return (← settle flags negated (caseless flags set), depth + 1)

/-- The members of a class up to its closing bracket. -/
def members : Nat → ClassReading → Reader (CharSet × Nat)
  | 0, _ => failure
  | fuel + 1, reading => do
    skipBlanks
    let flags ← flags
    let c ← peek
    let twice := (← second?) == some c
    if c == '[' then
      match ← namedClass? with
      | some set => members fuel (reading.add set)
      | none =>
        skip
        let (set, depth) ← bracket fuel
        let (whole, others) ← members fuel (reading.add set)
        return (whole, max depth others)
    else if c == ']' then
      skip
      return (reading.value flags, 0)
    else if c == '&' && twice then
      skip; skip
      members fuel (reading.operator flags .inter)
    else if c == '-' && twice then
      skip; skip
      members fuel (reading.operator flags .diff)
    else if c == '~' && twice then
      skip; skip
      members fuel (reading.operator flags .symmDiff)
    else members fuel (reading.add (← classRange))

end

/-- A number of repetitions, with blanks around it. -/
def repetitionCount : Reader Nat := do
  let _ ← takeWhile Text.isBlank
  let digits ← takeAllSpaced Char.isDigit
  let _ ← takeAllSpaced Text.isBlank
  guard !digits.isEmpty
  let count := digits.foldl (fun n c => n * 10 + (c.toNat - '0'.toNat)) 0
  guard (count < UInt32.size)
  return count

/-- How often something is repeated, after the opening brace. -/
def repetitionRange : Reader (Nat × Option Nat) := do
  skipBlanks
  let least ← repetitionCount
  if (← peek) == ',' then
    let _ ← nextSpaced
    if (← peek) == '\x7d' then
      expect '\x7d'
      return (least, none)
    let most ← repetitionCount
    expect '\x7d'
    guard (least ≤ most)
    return (least, some most)
  expect '\x7d'
  return (least, some least)

/-- The repetition of the item before it; items are given last first. -/
def repeatLast (items : List Item) (least : Nat) (most : Option Nat) : Reader (List Item) :=
  match items with
  | some (body, depth) :: others => return some (.repeated body least most, depth + 1) :: others
  | _ => failure

/-- Changes a flag. -/
def Flags.set (flags : Flags) (on : Bool) : Char → Flags
  | 'i' => { flags with ignoreCase := on }
  | 'm' => { flags with multiLine := on }
  | 's' => { flags with dotAll := on }
  | 'R' => { flags with returns := on }
  | 'u' => { flags with unicode := on }
  | 'x' => { flags with spaced := on }
  | _ => flags

/-- The letters of flags. The one for greed changes nothing about where a pattern occurs. -/
def isFlag (c : Char) : Bool := ['i', 'm', 's', 'U', 'u', 'R', 'x'].contains c

/-- Changes flags; those after a dash are cleared. -/
def changeFlags (flags : Flags) (letters : List Char) : Flags :=
  let on := letters.takeWhile (· != '-')
  let off := letters.drop (on.length + 1)
  off.foldl (fun flags c => flags.set false c) (on.foldl (fun flags c => flags.set true c) flags)

/-- The letters of a change of flags: each once, and something after a dash. -/
def flagLetters : Reader (List Char) := do
  let letters ← takeWhile fun c => c != ':' && c != ')'
  guard (letters.all fun c => isFlag c || c == '-')
  guard letters.Nodup
  guard (letters.getLast? != some '-')
  return letters

def isNameStart (c : Char) : Bool := c == '_' || CharSet.alphabetic.contains c

def isNamePart (c : Char) : Bool :=
  isNameStart c || c == '.' || c == '[' || c == ']' ||
    (CharSet.ofCategories fun name => name.startsWith "N" || name == "Mc").contains c

/-- The name of a group, which no other group has. -/
def groupName : Reader Unit := do
  let name ← takeWhile (· != '>')
  expect '>'
  guard ((name.head?.any isNameStart) && name.tail.all isNamePart)
  let text := String.ofList name
  guard !(← get).names.contains text
  modify fun r => { r with names := text :: r.names }

/-- A sequence of items, which are given last first. -/
def sequenceOf (items : List Item) : Pattern × Nat :=
  match (items.filterMap id).reverse, items.length with
  | [], _ => (.empty, 0)
  | [only], 1 => only
  | parts, _ =>
    (parts.foldr (fun part rest => .seq part.1 rest) .empty, (parts.map (·.2)).foldl max 0 + 1)

/-- The alternatives as one pattern. -/
def alternativesOf : List (Pattern × Nat) → Pattern × Nat
  | [] => (.empty, 0)
  | [only] => only
  | first :: rest =>
    (rest.foldl (fun all part => .either all part.1) first.1,
      (rest.map (·.2)).foldl max first.2 + 1)

/-- A character that stands for itself. -/
def literal (flags : Flags) (c : Char) : Item :=
  some (.oneOf (caseless flags (.singleton c)), 0)

/-- What an escape outside of classes matches. -/
def Escape.item (flags : Flags) : Escape → Reader Item
  | .char c byte => do
    guard (flags.unicode || !byte || c.toNat < 0x80)
    return literal flags c
  | .set found => return some (.oneOf found, 0)
  | .anchor place => return some (.anchor place, 0)

/-- An anchor, a class or a character outside of brackets. -/
def primitive (flags : Flags) (c : Char) : Reader Item := do
  match c with
  | '\\' => (← escape).item flags
  | '.' =>
    guard flags.unicode
    let ends :=
      if flags.dotAll then .empty
      else if flags.returns then CharSet.ofRanges [(10, 10), (13, 13)]
      else CharSet.ofRanges [(10, 10)]
    return some (.oneOf ends.complement, 0)
  | '^' =>
    return some (.anchor (if flags.multiLine then .lineStart flags.returns else .textStart), 0)
  | '$' =>
    return some (.anchor (if flags.multiLine then .lineEnd flags.returns else .textEnd), 0)
  | _ => return literal flags c

mutual

/-- Alternatives up to the end of the group or of the pattern. -/
def alternatives : Nat → List (Pattern × Nat) → Reader (Pattern × Nat)
  | 0, _ => failure
  | fuel + 1, found => do
    let found := sequenceOf (← sequence fuel []) :: found
    if (← peek?) == some '|' then
      skip
      alternatives fuel found
    else return alternativesOf found.reverse

/-- Items up to a bar, the end of the group or of the pattern; last first. -/
def sequence : Nat → List Item → Reader (List Item)
  | 0, _ => failure
  | fuel + 1, items => do
    skipBlanks
    match ← peek? with
    | none => return items
    | some '|' => return items
    | some ')' => return items
    | some c =>
      skip
      if c == '(' then sequence fuel ((← group fuel) :: items)
      else if c == '[' then
        let (set, depth) ← bracket (2 * (← get).rest.length + 2)
        sequence fuel (some (.oneOf set, depth) :: items)
      else if c == '?' || c == '*' || c == '+' || c == '\x7b' then
        let (least, most) ← match c with
          | '?' => pure (0, some 1)
          | '*' => pure (0, none)
          | '+' => pure (1, none)
          | _ => do
            let range ← repetitionRange
            skipBlanks
            pure range
        let repeated ← repeatLast items least most
        let _ ← accept "?"
        sequence fuel repeated
      else sequence fuel ((← primitive (← flags) c) :: items)

/-- A group or a change of flags, after the opening parenthesis. -/
def group : Nat → Reader Item
  | 0 => failure
  | fuel + 1 => do
    skipBlanks
    let outer ← flags
    if ← acceptAny ["?=", "?!", "?<=", "?<!"] then failure
    else if ← acceptAny ["?P<", "?<"] then groupName
    else if ← accept "?" then
      let letters ← flagLetters
      setFlags (changeFlags outer letters)
      if ← accept ")" then
        guard !letters.isEmpty
        return none
      expect ':'
    let (body, depth) ← alternatives fuel []
    expect ')'
    setFlags outer
    return some (body, depth + 1)

end

/-- Groups, sequences and repetitions nest at most this deep. -/
def maxDepth : Nat := 250

/-- Reads a pattern that is not too large. -/
def parse? [PatternLimit] (text : String) : Option Pattern := do
  let characters := text.toList
  let reader := alternatives (4 * characters.length + 4) []
  let ((pattern, depth), left) ← reader.run ⟨characters, .default, []⟩
  guard (left.rest.isEmpty && depth ≤ maxDepth && PatternLimit.accepts pattern)
  return pattern

/-- The characters that a backslash keeps from meaning something else. -/
def isMeta (c : Char) : Bool :=
  ['\\', '.', '+', '*', '?', '(', ')', '|', '[', ']', '\x7b', '\x7d', '^', '$', '#', '&', '-',
    '~'].contains c

/-- A text as a pattern in which all its characters stand for themselves. -/
def escapeText (text : String) : String :=
  String.ofList (text.toList.flatMap fun c => if isMeta c then ['\\', c] else [c])

end CodeAtlas.Pattern

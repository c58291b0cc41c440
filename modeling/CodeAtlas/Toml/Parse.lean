import CodeAtlas.Toml.Basic

namespace CodeAtlas.Toml

/-- Reads from the front of a text. -/
abbrev Reader := StateT (List Char) Option

namespace Reader

def peek? : Reader (Option Char) := do return (← get).head?

def next : Reader Char := do
  let c ← (← get).head?
  modify List.tail
  return c

def expect (c : Char) : Reader Unit := do
  guard ((← next) == c)

/-- Skips a text if it comes next, and says whether it did. -/
def accept (text : List Char) : Reader Bool := do
  if text.isPrefixOf (← get) then
    modify (·.drop text.length)
    return true
  return false

def takeWhile (p : Char → Bool) : Reader (List Char) := do
  let run := (← get).takeWhile p
  modify (·.drop run.length)
  return run

/-- Skips blanks within a line. -/
def skipBlanks : Reader Unit := do
  let _ ← takeWhile fun c => c == ' ' || c == '\t'

/-- Whether a character may stand in comments and strings without an escape. -/
def isPlain (c : Char) : Bool := c == '\t' || (' ' ≤ c && c != '\x7f')

/-- Skips a comment if one comes next. -/
def skipComment : Reader Unit := do
  if (← peek?) == some '#' then
    let _ ← takeWhile isPlain

/-- Skips the end of a line, and says whether it was there. -/
def acceptLineEnd : Reader Bool := do
  if ← accept ['\n'] then return true
  accept ['\r', '\n']

/-- Skips blanks, comments and ends of lines. -/
def skipLines : Nat → Reader Unit
  | 0 => return
  | fuel + 1 => do
    skipBlanks
    skipComment
    if ← acceptLineEnd then skipLines fuel

/-- Skips all blanks, comments and ends of lines that come next. -/
def skipAllLines : Reader Unit := do skipLines ((← get).length + 1)

end Reader

open Reader

/-- The value of some hexadecimal digits. -/
def hexNumber? (digits : List Char) : Option Nat :=
  digits.foldlM (fun n c =>
    if c.isDigit then some (n * 16 + (c.toNat - '0'.toNat))
    else if 'a' ≤ c && c ≤ 'f' then some (n * 16 + (c.toNat - 'a'.toNat + 10))
    else if 'A' ≤ c && c ≤ 'F' then some (n * 16 + (c.toNat - 'A'.toNat + 10))
    else none) 0

/-- A character by its number in so many hexadecimal digits. -/
def numberedChar (count : Nat) : Reader Char := do
  let digits := (← get).take count
  modify (·.drop count)
  let code ← hexNumber? digits
  guard (digits.length == count && code.isValidChar)
  return Char.ofNat code

/-- The character of an escape, after the backslash. -/
def escaped : Reader Char := do
  match ← next with
  | 'b' => return '\x08'
  | 't' => return '\t'
  | 'n' => return '\n'
  | 'f' => return '\x0c'
  | 'r' => return '\r'
  | '\x22' => return '\x22'
  | '\\' => return '\\'
  | 'u' => numberedChar 4
  | 'U' => numberedChar 8
  | _ => failure

/-- The rest of a string between quotes. -/
def basicRest : Nat → Reader (List Char)
  | 0 => failure
  | fuel + 1 => do
    let c ← next
    if c == '\x22' then return []
    else if c == '\\' then
      let found ← escaped
      return found :: (← basicRest fuel)
    else
      guard (isPlain c)
      return c :: (← basicRest fuel)

/-- Skips what a backslash at the end of a line leaves out, after the backslash: blanks and ends of
lines, of which there is at least one. -/
def skipFold : Reader Unit := do
  skipBlanks
  guard (← acceptLineEnd)
  let rec go : Nat → Reader Unit
    | 0 => return
    | fuel + 1 => do
      skipBlanks
      if ← acceptLineEnd then go fuel
  go ((← get).length + 1)

/-- The end of a string in triple quotes: one or two quotes before it belong to the string. -/
def tripleEnd? (quote : Char) : Reader (Option (List Char)) := do
  let quotes := (← get).takeWhile (· == quote)
  if quotes.length < 3 then return none
  let inside := min (quotes.length - 3) 2
  modify (·.drop (inside + 3))
  return some (List.replicate inside quote)

/-- The rest of a string in triple quotes; escapes count if `escapes`. -/
def tripleRest (quote : Char) (escapes : Bool) : Nat → Reader (List Char)
  | 0 => failure
  | fuel + 1 => do
    match ← tripleEnd? quote with
    | some inside => return inside
    | none =>
      if ← acceptLineEnd then return '\n' :: (← tripleRest quote escapes fuel)
      let c ← next
      if c == '\\' && escapes then
        let rest ← get
        match (← peek?) with
        | some c =>
          if c == ' ' || c == '\t' || c == '\r' || c == '\n' then
            skipFold
            tripleRest quote escapes fuel
          else
            set rest
            let found ← escaped
            return found :: (← tripleRest quote escapes fuel)
        | none => failure
      else
        guard (isPlain c)
        return c :: (← tripleRest quote escapes fuel)

/-- A string on one line. -/
def lineString : Reader String := do
  let fuel := (← get).length + 1
  let quote ← next
  if quote == '\x22' then return String.ofList (← basicRest fuel)
  guard (quote == '\'')
  let text ← takeWhile fun c => c != '\'' && isPlain c
  expect '\''
  return String.ofList text

/-- A string in quotes or in triple quotes. -/
def anyString (quote : Char) : Reader String := do
  if ← accept [quote, quote, quote] then
    let _ ← acceptLineEnd
    return String.ofList (← tripleRest quote (quote == '\x22') ((← get).length + 1))
  lineString

def isBareKeyChar (c : Char) : Bool := c.isAlphanum || c == '_' || c == '-'

/-- One part of a key. -/
def simpleKey : Reader String := do
  match ← peek? with
  | some '\x22' => lineString
  | some '\'' => lineString
  | _ =>
    let key ← takeWhile isBareKeyChar
    guard !key.isEmpty
    return String.ofList key

/-- The parts of a key with points between them. -/
def keyParts : Nat → Reader (List String)
  | 0 => failure
  | fuel + 1 => do
    skipBlanks
    let key ← simpleKey
    skipBlanks
    if ← accept ['.'] then return key :: (← keyParts fuel)
    return [key]

def key : Reader (List String) := do keyParts ((← get).length + 1)

/-- Digits with single underscores between them. -/
def isDigits (p : Char → Bool) : List Char → Bool
  | [] => false
  | [c] => p c
  | c :: '_' :: rest => p c && isDigits p rest
  | c :: rest => p c && isDigits p rest

/-- The number of digits to a base. -/
def digitsValue (base : Nat) (digits : List Char) : Nat :=
  (digits.filter (· != '_')).foldl (fun n c => n * base + ((hexNumber? [c]).getD 0)) 0

/-- Whether digits are those of a whole number: it does not begin with a zero, or is one. -/
def isWhole (digits : List Char) : Bool :=
  isDigits Char.isDigit digits && (digits.head? != some '0' || digits.length == 1)

def integer? (token : List Char) : Option Int := do
  let value : Int ← match token with
    | '0' :: 'x' :: digits =>
      if isDigits (fun c => (hexNumber? [c]).isSome) digits then some (digitsValue 16 digits : Int)
      else none
    | '0' :: 'o' :: digits =>
      if isDigits (fun c => '0' ≤ c && c ≤ '7') digits then some (digitsValue 8 digits : Int)
      else none
    | '0' :: 'b' :: digits =>
      if isDigits (fun c => c == '0' || c == '1') digits then some (digitsValue 2 digits : Int)
      else none
    | '+' :: digits => if isWhole digits then some (digitsValue 10 digits : Int) else none
    | '-' :: digits => if isWhole digits then some (-(digitsValue 10 digits : Int)) else none
    | digits => if isWhole digits then some (digitsValue 10 digits : Int) else none
  if Int64.minValue.toInt ≤ value ∧ value ≤ Int64.maxValue.toInt then some value else none

/-- A token without the sign it may begin with. -/
def unsigned : List Char → List Char
  | '+' :: rest => rest
  | '-' :: rest => rest
  | token => token

def isExponent (token : List Char) : Bool := isDigits Char.isDigit (unsigned token)

def isFloat (token : List Char) : Bool :=
  let body := unsigned token
  let whole := body.takeWhile fun c => c.isDigit || c == '_'
  let rest := body.drop whole.length
  body == "inf".toList || body == "nan".toList ||
    (isWhole whole &&
      match rest with
      | '.' :: rest =>
        let fraction := rest.takeWhile fun c => c.isDigit || c == '_'
        isDigits Char.isDigit fraction &&
          match rest.drop fraction.length with
          | [] => true
          | e :: exponent => (e == 'e' || e == 'E') && isExponent exponent
      | e :: exponent => (e == 'e' || e == 'E') && isExponent exponent
      | [] => false)

/-- The number of exactly so many digits at the front, and what follows. -/
def fixedNumber? (count : Nat) (text : List Char) : Option (Nat × List Char) :=
  let digits := text.take count
  if digits.length = count ∧ digits.all Char.isDigit then
    some (digitsValue 10 digits, text.drop count)
  else none

/-- What follows a character at the front. -/
def afterChar? (c : Char) : List Char → Option (List Char)
  | [] => none
  | first :: rest => if first = c then some rest else none

def daysOf (year month : Nat) : Nat :=
  if month = 2 then
    if year % 4 = 0 ∧ (year % 100 ≠ 0 ∨ year % 400 = 0) then 29 else 28
  else if month = 4 ∨ month = 6 ∨ month = 9 ∨ month = 11 then 30
  else 31

/-- What follows a date at the front. -/
def afterDate? (text : List Char) : Option (List Char) := do
  let (year, text) ← fixedNumber? 4 text
  let (month, text) ← fixedNumber? 2 (← afterChar? '-' text)
  let (day, text) ← fixedNumber? 2 (← afterChar? '-' text)
  if 1 ≤ month ∧ month ≤ 12 ∧ 1 ≤ day ∧ day ≤ daysOf year month then some text else none

/-- What follows a time at the front. -/
def afterTime? (text : List Char) : Option (List Char) := do
  let (hour, text) ← fixedNumber? 2 text
  let (minute, text) ← fixedNumber? 2 (← afterChar? ':' text)
  let (second, text) ← fixedNumber? 2 (← afterChar? ':' text)
  if 24 ≤ hour ∨ 60 ≤ minute ∨ 61 ≤ second then none
  match text with
  | '.' :: rest =>
    let fraction := rest.takeWhile Char.isDigit
    if fraction.isEmpty then none else some (rest.drop fraction.length)
  | rest => some rest

/-- Whether a text is the distance of a place's time from the one at Greenwich. -/
def isOffset : List Char → Bool
  | ['Z'] => true
  | ['z'] => true
  | sign :: rest =>
    (sign == '+' || sign == '-') &&
      match fixedNumber? 2 rest with
      | some (hour, ':' :: rest) =>
        match fixedNumber? 2 rest with
        | some (minute, []) => hour < 24 && minute < 60
        | _ => false
      | _ => false
  | [] => false

/-- Whether a text is a date, a time or both. -/
def isMoment (token : List Char) : Bool :=
  match afterDate? token with
  | some [] => true
  | some (mark :: rest) =>
    (mark == 'T' || mark == 't' || mark == ' ') &&
      match afterTime? rest with
      | some [] => true
      | some offset => isOffset offset
      | none => false
  | none => afterTime? token == some []

def isTokenChar (c : Char) : Bool :=
  c.isAlphanum || c == '_' || c == '+' || c == '-' || c == '.' || c == ':'

/-- A number, a date or a word. A date may be followed by a blank and a time. -/
def token : Reader (List Char) := do
  let token ← takeWhile isTokenChar
  match afterDate? token, (← get) with
  | some [], ' ' :: c :: _ =>
    if c.isDigit then
      let _ ← next
      return token ++ ' ' :: (← takeWhile isTokenChar)
    return token
  | _, _ => return token

/-- The value that a token stands for. -/
def ofToken? (token : List Char) : Option Toml :=
  if token = "true".toList then some (boolean true)
  else if token = "false".toList then some (boolean false)
  else if isMoment token then some moment
  else if isFloat token then some float
  else (integer? token).map integer

/-- Values nest less deep than this. -/
def maxDepth : Nat := 80

mutual

/-- A value; the first number bounds how deep values nest in it. -/
def value : Nat → Nat → Reader Toml
  | 0, _ => failure
  | depth + 1, fuel => do
    match fuel with
    | 0 => failure
    | fuel + 1 =>
      match ← peek? with
      | some '\x22' => return string (← anyString '\x22')
      | some '\'' => return string (← anyString '\'')
      | some '[' =>
        let _ ← next
        return array (← items depth fuel)
      | some '\x7b' =>
        let _ ← next
        skipBlanks
        if ← accept ['\x7d'] then return table .braces []
        let (origin, found) ← members depth fuel (.braces, [])
        return table origin found
      | _ => ofToken? (← token)

/-- The items of an array up to its closing bracket. -/
def items : Nat → Nat → Reader (List Toml)
  | _, 0 => failure
  | depth, fuel + 1 => do
    skipAllLines
    if ← accept [']'] then return []
    let item ← value depth fuel
    skipAllLines
    if ← accept [','] then return item :: (← items depth fuel)
    expect ']'
    return [item]

/-- The members of a table in braces up to the closing one. -/
def members : Nat → Nat → Origin × Members → Reader (Origin × Members)
  | _, 0, _ => failure
  | depth, fuel + 1, (origin, found) => do
    let path ← key
    expect '='
    skipBlanks
    let item ← value depth fuel
    skipBlanks
    let next ← insertAt path item origin found
    if ← accept [','] then
      skipBlanks
      members depth fuel next
    else
      expect '\x7d'
      return next

end

/-- A document of which some lines are read: its tables and the path of the one at hand. -/
structure Draft where
  members : Members
  path : List String

namespace Draft

def change (draft : Draft) (path : List String) (change : Change) : Option Draft :=
  (change .header draft.members).map fun (_, members) => ⟨members, path⟩

/-- Opens the table of a header. -/
def openHeader (draft : Draft) (path : List String) : Option Draft := do
  draft.change path (changeAt false path.dropLast (openTable (← path.getLast?)))

/-- Opens one more table of a header in double brackets. -/
def openElement (draft : Draft) (path : List String) : Option Draft := do
  draft.change path (changeAt false path.dropLast (Toml.openElement (← path.getLast?)))

/-- Puts a value into the table at hand. -/
def insert (draft : Draft) (path : List String) (value : Toml) : Option Draft :=
  draft.change draft.path (changeAt false draft.path (insertAt path value))

end Draft

/-- A line with a header or a value, or nothing. -/
def line (draft : Draft) : Reader Draft := do
  skipBlanks
  match ← peek? with
  | none => return draft
  | some '#' => return draft
  | some '\n' => return draft
  | some '\r' => return draft
  | some '[' =>
    let _ ← next
    if ← accept ['['] then
      let path ← key
      expect ']'
      expect ']'
      draft.openElement path
    else
      let path ← key
      expect ']'
      draft.openHeader path
  | some _ =>
    let path ← key
    guard (path.length ≤ maxDepth)
    expect '='
    skipBlanks
    let item ← value maxDepth ((← get).length + 1)
    draft.insert path item

/-- The lines of a document. -/
def document : Nat → Draft → Reader Draft
  | 0, _ => failure
  | fuel + 1, draft => do
    let draft ← line draft
    skipBlanks
    skipComment
    if ← acceptLineEnd then document fuel draft
    else
      guard (← get).isEmpty
      return draft

/-- Reads a document. It may begin with a byte order mark. -/
def parse? (text : String) : Option Toml := do
  let characters := text.toList
  let body := if characters.head? == some '\ufeff' then characters.tail else characters
  let (draft, _) ← (document (body.length + 1) ⟨[], []⟩).run body
  return table .header draft.members

end CodeAtlas.Toml

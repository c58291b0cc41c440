import CodeAtlas.Json.Basic

namespace CodeAtlas.Json

/-- A number as written. -/
structure Literal where
  negative : Bool
  whole : List Char
  fraction : List Char
  /-- Whether the exponent is negative, and its digits. -/
  exponent : Option (Bool × List Char)
  deriving Repr, DecidableEq

/-- A JSON text. A string is `none` if it names half of a surrogate pair alone. -/
inductive Document where
  | null
  | bool (value : Bool)
  | number (literal : Literal)
  | string (text : Option String)
  | array (items : List Document)
  | object (members : List (Option String × Document))
  deriving Inhabited

namespace Document

def isBlank (c : Char) : Bool := c == ' ' || c == '\n' || c == '\t' || c == '\r'

def skipBlanks (text : List Char) : List Char := text.dropWhile isBlank

def hexDigit? (c : Char) : Option Nat :=
  if c.isDigit then some (c.toNat - '0'.toNat)
  else if 'a' ≤ c ∧ c ≤ 'f' then some (c.toNat - 'a'.toNat + 10)
  else if 'A' ≤ c ∧ c ≤ 'F' then some (c.toNat - 'A'.toNat + 10)
  else none

/-- The code unit that four hexadecimal digits name. -/
def unit? (a b c d : Char) : Option Nat := do
  return (((← hexDigit? a) * 16 + (← hexDigit? b)) * 16 + (← hexDigit? c)) * 16 + (← hexDigit? d)

/-- The character that stands for itself after a backslash or is written by a letter there. -/
def escaped? (c : Char) : Option Char :=
  match c with
  | '\x22' => some '\x22'
  | '\\' => some '\\'
  | '/' => some '/'
  | 'b' => some '\x08'
  | 'f' => some '\x0c'
  | 'n' => some '\n'
  | 'r' => some '\r'
  | 't' => some '\t'
  | _ => none

def isHighSurrogate (n : Nat) : Bool := 0xD800 ≤ n && n < 0xDC00

def isLowSurrogate (n : Nat) : Bool := 0xDC00 ≤ n && n < 0xE000

/-- Reads a string after its opening quote. `read` holds the characters so far, last first, `none`
once half a surrogate pair stood alone. -/
def stringRest : List Char → Option (List Char) → Option (Option String × List Char)
  | [], _ => none
  | '\x22' :: rest, read => some (read.map fun cs => String.ofList cs.reverse, rest)
  | '\\' :: 'u' :: a :: b :: c :: d :: '\\' :: 'u' :: e :: f :: g :: h :: rest, read => do
    let first ← unit? a b c d
    let second ← unit? e f g h
    if isHighSurrogate first then
      if isLowSurrogate second then
        let n := 0x10000 + (first - 0xD800) * 0x400 + (second - 0xDC00)
        stringRest rest (read.map (Char.ofNat n :: ·))
      else stringRest rest none
    else if isLowSurrogate first then
      stringRest ('\\' :: 'u' :: e :: f :: g :: h :: rest) none
    else stringRest ('\\' :: 'u' :: e :: f :: g :: h :: rest) (read.map (Char.ofNat first :: ·))
  | '\\' :: 'u' :: a :: b :: c :: d :: rest, read => do
    let n ← unit? a b c d
    if isHighSurrogate n || isLowSurrogate n then stringRest rest none
    else stringRest rest (read.map (Char.ofNat n :: ·))
  | '\\' :: c :: rest, read => do
    let plain ← escaped? c
    stringRest rest (read.map (plain :: ·))
  | c :: rest, read =>
    if c.toNat < 0x20 then none else stringRest rest (read.map (c :: ·))
  termination_by text => text.length

/-- The digits after a point, which must be there. -/
def fraction? : List Char → Option (List Char × List Char)
  | '.' :: rest =>
    let digits := rest.takeWhile Char.isDigit
    if digits.isEmpty then none else some (digits, rest.dropWhile Char.isDigit)
  | rest => some ([], rest)

/-- The sign and the digits of an exponent, which must be there. -/
def exponent? : List Char → Option (Option (Bool × List Char) × List Char)
  | [] => some (none, [])
  | c :: rest =>
    if c == 'e' || c == 'E' then
      let negative := rest.head? == some '-'
      let digits := if negative || rest.head? == some '+' then rest.drop 1 else rest
      let taken := digits.takeWhile Char.isDigit
      if taken.isEmpty then none
      else some (some (negative, taken), digits.dropWhile Char.isDigit)
    else some (none, c :: rest)

/-- Reads a number. A leading zero has no digit after it. -/
def number? (text : List Char) : Option (Literal × List Char) := do
  let negative := text.head? == some '-'
  let text := if negative then text.drop 1 else text
  let whole := if text.head? == some '0' then ['0'] else text.takeWhile Char.isDigit
  if whole.isEmpty then none
  let rest := text.drop whole.length
  if whole == ['0'] && rest.head?.any Char.isDigit then none
  let (fraction, rest) ← fraction? rest
  let (exponent, rest) ← exponent? rest
  return (⟨negative, whole, fraction, exponent⟩, rest)

/-- What remains of the text after `word`. -/
def afterWord? (word : String) (text : List Char) : Option (List Char) :=
  if word.toList.isPrefixOf text then some (text.drop word.length) else none

mutual

/-- Reads a value and yields what follows it. The fuel bounds the number of values read inside. -/
def value? : Nat → List Char → Option (Document × List Char)
  | 0, _ => none
  | fuel + 1, text =>
    match skipBlanks text with
    | [] => none
    | c :: rest =>
      if c == '[' then
        match skipBlanks rest with
        | ']' :: rest => some (array [], rest)
        | rest => items? fuel rest []
      else if c == '{' then
        match skipBlanks rest with
        | '}' :: rest => some (object [], rest)
        | rest => members? fuel rest []
      else if c == '\x22' then do
        let (text, rest) ← stringRest rest (some [])
        return (string text, rest)
      else if c == 'n' then do return (null, ← afterWord? "null" (c :: rest))
      else if c == 't' then do return (bool true, ← afterWord? "true" (c :: rest))
      else if c == 'f' then do return (bool false, ← afterWord? "false" (c :: rest))
      else do
        let (literal, rest) ← number? (c :: rest)
        return (number literal, rest)

/-- Reads the items of an array from one of them to the closing bracket. -/
def items? : Nat → List Char → List Document → Option (Document × List Char)
  | 0, _, _ => none
  | fuel + 1, text, read =>
    match value? fuel text with
    | none => none
    | some (item, rest) =>
      match skipBlanks rest with
      | ',' :: rest => items? fuel rest (item :: read)
      | ']' :: rest => some (array (item :: read).reverse, rest)
      | _ => none

/-- Reads the members of an object from a key to the closing brace. -/
def members? : Nat → List Char → List (Option String × Document) → Option (Document × List Char)
  | 0, _, _ => none
  | fuel + 1, text, read =>
    match skipBlanks text with
    | '\x22' :: rest =>
      match stringRest rest (some []) with
      | none => none
      | some (key, rest) =>
        match skipBlanks rest with
        | ':' :: rest =>
          match value? fuel rest with
          | none => none
          | some (value, rest) =>
            match skipBlanks rest with
            | ',' :: rest => members? fuel rest ((key, value) :: read)
            | '}' :: rest => some (object ((key, value) :: read).reverse, rest)
            | _ => none
        | _ => none
    | _ => none

end

/-- Reads a text that holds one value and nothing else but blanks. -/
def parse? (text : String) : Option Document :=
  let characters := text.toList
  match value? (characters.length + 1) characters with
  | some (document, rest) => if (skipBlanks rest).isEmpty then some document else none
  | none => none

end Document

end CodeAtlas.Json

import CodeAtlas.Script.Cursor

namespace CodeAtlas.Script

/-- Characters that separate tokens: the ASCII blanks, the space separators of Unicode, line and
paragraph separators and the invisible joiners. -/
def isGap (c : Char) : Bool :=
  let n := c.toNat
  (9 ≤ n && n ≤ 13) || n == 0x20 || n == 0xA0 || n == 0x1680 || (0x2000 ≤ n && n ≤ 0x200B) ||
    n == 0x2028 || n == 0x2029 || n == 0x202F || n == 0x205F || n == 0x2060 || n == 0x3000 ||
    n == 0xFEFF

/-- Characters with a meaning of their own, which no word contains. -/
def punctuation : List Char :=
  ":;\"'@#.,|^&<=>+-*/\\%?!~()[]\x7b\x7d\x60".toList

/-- Characters of a word after its first one. Any character that is no blank, control character
or punctuation will do. -/
def isWordChar (c : Char) : Bool :=
  0x20 ≤ c.toNat && !isGap c && !punctuation.contains c

def isWordStart (c : Char) : Bool := isWordChar c && !c.isDigit

def isHexDigit (c : Char) : Bool :=
  c.isDigit || ('a' ≤ c && c ≤ 'f') || ('A' ≤ c && c ≤ 'F')

/-- Length of the escape for one character that a word may contain, such as `\u0061` or the
form with braces; 0 if there is none at the front. -/
def escapeLength : List Char → Nat
  | '\\' :: 'u' :: '{' :: rest =>
    let digits := rest.takeWhile isHexDigit
    if digits.isEmpty then 0
    else if (rest.drop digits.length).head? == some '}' then digits.length + 4 else 0
  | '\\' :: 'u' :: rest => if (rest.take 4).length == 4 && (rest.take 4).all isHexDigit then 6 else 0
  | _ => 0

/-- The part of a text that a gap between tokens is in. -/
inductive Gap where
  | blank
  | lineComment
  /-- Inside a comment that started at the given cursor. -/
  | blockComment (start : Cursor)

/-- Leaves out blanks and comments; the flag tells whether there was a line break outside the
comments between delimiters. A comment that is never closed is not left out. -/
def Cursor.skipGap (cursor : Cursor) : Cursor × Bool :=
  go .blank cursor.rest cursor.here false
where
  go : Gap → List Char → Position → Bool → Cursor × Bool
    | .blank, [], here, broken => (⟨[], here⟩, broken)
    | .lineComment, [], here, broken => (⟨[], here⟩, broken)
    | .blockComment start, [], _, broken => (start, broken)
    | .blank, '/' :: '/' :: rest, here, broken =>
      go .lineComment rest ((here.next '/').next '/') broken
    | .blank, '/' :: '*' :: rest, here, broken =>
      go (.blockComment ⟨'/' :: '*' :: rest, here⟩) rest ((here.next '/').next '*') broken
    | .blank, c :: rest, here, broken =>
      if isGap c then go .blank rest (here.next c) (broken || c == '\n' || c == '\u2028' || c == '\u2029')
      else (⟨c :: rest, here⟩, broken)
    | .lineComment, c :: rest, here, broken =>
      if c == '\n' || c == '\u2028' || c == '\u2029' then go .blank rest (here.next c) true
      else go .lineComment rest (here.next c) broken
    | .blockComment _, '*' :: '/' :: rest, here, broken =>
      go .blank rest ((here.next '*').next '/') broken
    | .blockComment start, c :: rest, here, broken =>
      go (.blockComment start) rest (here.next c) broken

/-- The word at the front of the text: its characters and what follows. -/
def wordAt (text : List Char) : List Char × List Char :=
  match text with
  | [] => ([], [])
  | c :: _ => if isWordStart c || escapeLength text != 0 then go text 0 else ([], text)
where
  /-- `pending` characters are left of an escape that has begun. -/
  go : List Char → Nat → List Char × List Char
    | [], _ => ([], [])
    | c :: rest, pending + 1 =>
      let (word, after) := go rest pending
      (c :: word, after)
    | c :: rest, 0 =>
      if isWordChar c then
        let (word, after) := go rest 0
        (c :: word, after)
      else
        match escapeLength (c :: rest) with
        | 0 => ([], c :: rest)
        | length + 1 =>
          let (word, after) := go rest length
          (c :: word, after)

/-- All symbols of two or more characters, longer ones first. -/
def longSymbols : List String :=
  [">>>=",
   "...", "===", "!==", "**=", "<<=", ">>=", ">>>", "&&=", "||=", "??=",
   "=>", "==", "!=", "<=", ">=", "&&", "||", "??", "?.", "++", "--",
   "+=", "-=", "*=", "/=", "%=", "&=", "|=", "^=", "<<", ">>", "**"]

/-- The longest symbol at the front of the text, empty at its end. A question mark before a
fraction without leading zero is a symbol of its own. -/
def symbolAt (text : List Char) : String :=
  match text with
  | [] => ""
  | '?' :: '.' :: c :: _ => if c.isDigit then "?" else "?."
  | c :: _ =>
    match longSymbols.find? fun symbol => symbol.toList.isPrefixOf text with
    | some symbol => symbol
    | none => c.toString

namespace Reader

/-- Leaves out blanks and comments. -/
def skipGap : Reader Unit := modify fun cursor => cursor.skipGap.1

/-- What follows the gap. Nothing is taken. -/
def upcoming : Reader (List Char) := do return (← get).skipGap.1.rest

/-- The next character after the gap. -/
def peek : Reader (Option Char) := do return (← upcoming).head?

/-- The next word after the gap, empty if there is none. -/
def peekWord : Reader String := do return String.ofList (wordAt (← upcoming)).1

/-- The next symbol after the gap. -/
def peekSymbol : Reader String := do return symbolAt (← upcoming)

/-- Takes `length` characters after the gap. -/
def take (length : Nat) : Reader Unit := modify fun cursor => cursor.skipGap.1.drop length

def atMark (c : Char) : Reader Bool := do return (← peek) == some c

/-- Takes `c` if it is next. -/
def mark? (c : Char) : Reader Bool := do
  if ← atMark c then
    take 1
    return true
  else return false

/-- Takes the character `c`, whatever follows it. -/
def mark (c : Char) : Reader Unit := do
  if !(← mark? c) then fail

def atSymbol (symbol : String) : Reader Bool := do return (← peekSymbol) == symbol

def symbol? (symbol : String) : Reader Bool := do
  if ← atSymbol symbol then
    take symbol.length
    return true
  else return false

/-- Takes the symbol, which no further character may make longer. -/
def symbol (symbol : String) : Reader Unit := do
  if !(← symbol? symbol) then fail

def atWord (word : String) : Reader Bool := do return (← peekWord) == word

def word? (word : String) : Reader Bool := do
  if ← atWord word then
    take word.length
    return true
  else return false

def word (word : String) : Reader Unit := do
  if !(← word? word) then fail

/-- Whether the gap before the next token has a line break. -/
def atBreak : Reader Bool := do
  return (← get).skipGap.2

/-- A node over what `content` takes, which yields the children. -/
def node (kind : Kind) (content : Reader (List Node)) : Reader Node := do
  skipGap
  let start ← here
  let children ← content
  return .mk kind none (start.upTo (← here)) children

/-- A node from `start` to here. -/
def nodeFrom (kind : Kind) (start : Position) (children : List Node) : Reader Node := do
  return .mk kind none (start.upTo (← here)) children

/-- A node that is one word. -/
def wordNode (kind : Kind) : Reader Node := node kind do
  let (word, _) := wordAt (← get).rest
  if word.isEmpty then fail
  modify (·.drop word.length)
  return []

/-- A quoted text: line breaks in it must be escaped. -/
def quoted : Reader Node := node .string do
  match (← get).rest with
  | c :: _ =>
    if c == '\x22' || c == '\x27' then
      modify (·.drop 1)
      let cursor ← get
      match go c cursor.rest cursor.here with
      | some cursor => set cursor; return []
      | none => fail
    else fail
  | [] => fail
where
  go (quote : Char) : List Char → Position → Option Cursor
    | [], _ => none
    | '\\' :: '\r' :: '\n' :: rest, here => go quote rest (((here.next '\\').next '\r').next '\n')
    | '\\' :: c :: rest, here => go quote rest ((here.next '\\').next c)
    | c :: rest, here =>
      if c == quote then some ⟨rest, here.next c⟩
      else if c == '\n' || c == '\r' then none
      else go quote rest (here.next c)

/-- A pattern between slashes with its flags. A slash in brackets does not end it. -/
def pattern : Reader Node := node .literal do
  let cursor ← get
  match cursor.rest with
  | '/' :: _ =>
    match go false (cursor.drop 1).rest (cursor.drop 1).here with
    | some cursor =>
      set (cursor.dropWhile fun c => 'a' ≤ c && c ≤ 'z')
      return []
    | none => fail
  | _ => fail
where
  go (bracketed : Bool) : List Char → Position → Option Cursor
    | [], _ => none
    | '\\' :: c :: rest, here =>
      if c == '\n' then none else go bracketed rest ((here.next '\\').next c)
    | c :: rest, here =>
      if c == '\n' then none
      else if c == '[' then go true rest (here.next c)
      else if c == ']' then go false rest (here.next c)
      else if c == '/' && !bracketed then some ⟨rest, here.next c⟩
      else go bracketed rest (here.next c)

/-- Digits with single underscores between them: how many characters they take, 0 for none. -/
def digitsLength (isDigit : Char → Bool) (text : List Char) : Nat :=
  match text with
  | c :: rest => if isDigit c then go 1 rest else 0
  | [] => 0
where
  go (taken : Nat) : List Char → Nat
    | '_' :: c :: rest => if isDigit c then go (taken + 2) rest else taken
    | c :: rest => if isDigit c then go (taken + 1) rest else taken
    | [] => taken

/-- Length of the number at the front of the text, 0 for none. -/
def numberLength (text : List Char) : Nat :=
  match text with
  | '0' :: c :: rest =>
    if c == 'x' || c == 'X' then based isHexDigit text rest
    else if c == 'o' || c == 'O' then based (fun c => '0' ≤ c && c ≤ '7') text rest
    else if c == 'b' || c == 'B' then based (fun c => c == '0' || c == '1') text rest
    else decimal text
  | _ => decimal text
where
  big (text : List Char) (taken : Nat) : Nat :=
    if (text.drop taken).head? == some 'n' then taken + 1 else taken
  based (isDigit : Char → Bool) (text rest : List Char) : Nat :=
    match digitsLength isDigit rest with
    | 0 => 1
    | digits => big text (digits + 2)
  exponent (text : List Char) (taken : Nat) : Nat :=
    match text.drop taken with
    | e :: rest =>
      if e == 'e' || e == 'E' then
        let sign := if rest.head? == some '+' || rest.head? == some '-' then 1 else 0
        match digitsLength Char.isDigit (rest.drop sign) with
        | 0 => taken
        | digits => taken + 1 + sign + digits
      else taken
    | [] => taken
  decimal (text : List Char) : Nat :=
    let whole := digitsLength Char.isDigit text
    match text.drop whole with
    | '.' :: rest =>
      let fraction := digitsLength Char.isDigit rest
      if whole == 0 && fraction == 0 then 0 else exponent text (whole + 1 + fraction)
    | 'n' :: _ => if whole == 0 then 0 else whole + 1
    | _ => if whole == 0 then 0 else exponent text whole

def number : Reader Node := node .literal do
  match numberLength (← get).rest with
  | 0 => fail
  | length => modify (·.drop length); return []

end Reader

end CodeAtlas.Script

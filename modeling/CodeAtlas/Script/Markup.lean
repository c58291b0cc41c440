import CodeAtlas.Script.Grammar

namespace CodeAtlas.Script

/-- How many characters of the text after an ampersand make a reference to a character with it,
such as `amp;` or `#160;`; 0 if there is none. -/
def referenceLength : List Char → Nat
  | '#' :: 'x' :: rest => closed 2 6 isHexDigit rest
  | '#' :: 'X' :: rest => closed 2 6 isHexDigit rest
  | '#' :: rest => closed 1 5 Char.isDigit rest
  | rest => closed 0 30 Char.isAlpha rest
where
  closed (before most : Nat) (p : Char → Bool) (text : List Char) : Nat :=
    let length := (text.takeWhile p).length
    if 0 < length ∧ length ≤ most ∧ (text.drop length).head? = some ';' then before + length + 1
    else 0

namespace Grammar

variable (g : Grammar)

/-- A word of a tag or attribute name, which may have dashes in it. -/
def dashedWord : Reader Unit := do
  let _ ← Reader.wordNode .identifier
  modify fun cursor => cursor.dropWhile fun c => c == '-' || isWordChar c

/-- The name of a tag: a word, members of one, or a word with a name space. -/
def tagName : Reader Unit := do
  dashedWord
  let _ ← Reader.repeated part g.bound
where
  part : Reader (Option Unit) := do
    if (← Reader.mark? '.') || (← Reader.mark? ':') then return some (← dashedWord) else return none

/-- Code in braces, which may be missing. -/
def embedded : Reader Node := Reader.node .markup do
  Reader.mark '{'
  if ← Reader.mark? '}' then return []
  let node ← if ← Reader.atSymbol "..." then g.spread else g.sequence .enclosed
  Reader.mark '}'
  return [node]

/-- A reference to a character, after the ampersand it begins with. -/
def reference : Reader Unit := do
  match referenceLength (← get).rest with
  | 0 => Reader.fail
  | length => modify (·.drop length)

/-- Text between quotes. An ampersand before a letter or a number sign begins a reference; before
anything else it stands for itself, and so does the character after it. -/
def attributeText : Reader Node := Reader.node .string do
  match (← get).rest with
  | quote :: _ =>
    if quote != '\x22' && quote != '\x27' then Reader.fail
    modify (·.drop 1)
    let _ ← Reader.repeated (part quote) g.bound
    modify (·.drop 1)
    return []
  | [] => Reader.fail
where
  part (quote : Char) : Reader (Option Unit) := do
    match (← get).rest with
    | [] => Reader.fail
    | '&' :: c :: _ =>
      modify (·.drop 1)
      if c == '#' || c.isAlpha then return some (← reference) else return some (← modify (·.drop 1))
    | c :: _ => if c == quote then return none else return some (← modify (·.drop 1))

/-- An attribute of a tag: a name with an optional value, or code that spreads several. -/
def tagAttribute : Reader Node := do
  if ← Reader.atMark '{' then return ← g.embedded
  Reader.node .markup do
    dashedWord
    if ← Reader.mark? ':' then dashedWord
    if !(← Reader.mark? '=') then return []
    match ← Reader.peek with
    | some '{' => return [← g.embedded]
    | some '<' => return [← g.parse .element]
    | _ => return [← g.attributeText]

/-- The inside of an element up to its closing tag, whose name is not compared. -/
def content : Reader (List Node) := do
  let found ← Reader.repeated item g.bound
  Reader.mark '<'
  Reader.mark '/'
  if !(← Reader.atMark '>') then g.tagName
  Reader.mark '>'
  return found
where
  item : Reader (Option Node) := do
    modify (·.dropWhile fun c => !(['{', '}', '<', '>', '&'].contains c))
    match (← get).rest with
    | '{' :: _ => return some (← g.embedded)
    | '&' :: _ => some <$> Reader.node .markup do
      modify (·.drop 1)
      reference
      return []
    | '<' :: rest =>
      if (rest.dropWhile isGap).head? == some '/' then return none
      return some (← g.parse .element)
    | _ => Reader.fail

/-- An element: a tag that closes itself, or a tag, its content and the closing tag. -/
def elementRule : Reader Node := Reader.node .markup do
  Reader.mark '<'
  if ← Reader.mark? '>' then return ← g.content
  g.tagName
  let types ← if g.dialect.typed && (← Reader.atMark '<') then pure [← g.typeArguments] else pure []
  let attributes ← Reader.repeated next g.bound
  if ← Reader.mark? '/' then
    Reader.mark '>'
    return types ++ attributes
  Reader.mark '>'
  return types ++ attributes ++ (← g.content)
where
  next : Reader (Option Node) := do
    match ← Reader.peek with
    | some '/' => return none
    | some '>' => return none
    | _ => return some (← g.tagAttribute)

end Grammar

end CodeAtlas.Script

import CodeAtlas.Script.Dialect
import CodeAtlas.Script.Token

namespace CodeAtlas.Script

/-- Where an expression or a type stands. -/
inductive Place where
  /-- Between delimiters: line breaks mean nothing. -/
  | enclosed
  /-- At the end of a statement or member, which a line break may end. -/
  | final
  /-- Between the two marks of a conditional: an arrow function there states no result type, as a
  colon ends it, and a type there is no conditional one itself. -/
  | chosen
  deriving DecidableEq

/-- The rules that other rules refer to. -/
inductive Rule where
  | statement
  | block
  | expression (place : Place)
  | operand (place : Place)
  | type (place : Place)
  | typeOperand (place : Place)
  | pattern
  | element

structure Grammar where
  dialect : Dialect
  /-- No list in the source has more items than this. -/
  bound : Nat
  parse : Rule → Reader Node

/-- Whether a statement that stops before a line break may end there, given what the next line
starts with. It goes on where the next line could continue it; before an opening bracket that
depends on whether an operand stands before the break. -/
def endsBefore (dialect : Dialect) (operand : Bool) : List Char → Bool
  | [] => true
  | '.' :: c :: _ => !dialect.typed && c.isDigit
  | '+' :: rest => rest.head? == some '+'
  | '-' :: rest => rest.head? == some '-'
  | '!' :: rest => rest.head? != some '='
  | 'i' :: 'n' :: rest =>
    let word := rest.takeWhile Char.isAlpha
    !(word.isEmpty || word == "stanceof".toList)
  | c :: _ =>
    if c == '(' || c == '[' then dialect.typed && !operand
    else !"\x60,:;*%><=?^|&/.".toList.contains c

namespace Grammar

variable (g : Grammar)

/-- Whether a line break ends the statement here. -/
def atLineEnd (operand : Bool) : Reader Bool := do
  let (cursor, broken) := (← get).skipGap
  return broken && endsBefore g.dialect operand cursor.rest

/-- Whether an operand in `place` is cut off from what follows by a line break. -/
def cutOff (place : Place) (operand : Bool) : Reader Bool :=
  if place = .final then g.atLineEnd operand else pure false

/-- The end of a statement: a semicolon, a line break, a closing brace or the end of the source. -/
def statementEnd (operand : Bool) : Reader Unit := do
  if ← g.atLineEnd operand then return
  if ← Reader.mark? ';' then return
  match ← Reader.peek with
  | none => return
  | some c => if c != '}' then Reader.fail

/-- Items up to the closing mark, separated by commas; empty places are allowed if `gaps`. -/
def items (close : Char) (gaps : Bool) (item : Reader Node) : Reader (List Node) := do
  let found ← Reader.repeated step g.bound
  Reader.mark close
  return found.filterMap id
where
  step : Reader (Option (Option Node)) := do
    if ← Reader.atMark close then return none
    if gaps && (← Reader.mark? ',') then return some none
    let node ← item
    if !(← Reader.atMark close) then Reader.mark ','
    return some (some node)

/-- One item or more, separated by commas. -/
def listed (item : Reader Node) : Reader (List Node) := do
  let first ← item
  let rest ← Reader.repeated step g.bound
  return first :: rest
where
  step : Reader (Option Node) := do
    if ← Reader.mark? ',' then return some (← item) else return none

/-- Expressions separated by commas; a single one is itself. -/
def sequence (place : Place) : Reader Node := do
  Reader.skipGap
  let start ← Reader.here
  let first ← g.parse (.expression place)
  let rest ← Reader.repeated step g.bound
  if rest.isEmpty then return first
  Reader.nodeFrom .expression start (first :: rest)
where
  step : Reader (Option Node) := do
    if ← g.cutOff place true then return none
    if ← Reader.mark? ',' then return some (← g.parse (.expression place)) else return none

/-- An expression or one that stands for several values. -/
def spread : Reader Node := do
  if ← Reader.atSymbol "..." then
    Reader.node .expression do
      Reader.symbol "..."
      return [← g.parse (.expression .enclosed)]
  else g.parse (.expression .enclosed)

def arguments : Reader Node := Reader.node .arguments do
  Reader.mark '('
  g.items ')' true g.spread

/-- An initial value: what follows the equals sign. -/
def initializer? (place : Place) : Reader (Option Node) := do
  if ← Reader.symbol? "=" then return some (← g.parse (.expression place)) else return none

/-- A template: text between backquotes, with what it is made of in braces after a dollar sign. -/
def template (part : Reader Node) : Reader Node := Reader.node .template do
  Reader.mark '\x60'
  let found ← Reader.repeated step g.bound
  modify (·.drop 1)
  return found
where
  /-- Skips text up to the next part or the closing quote. -/
  text : List Char → Position → Cursor
    | [], here => ⟨[], here⟩
    | '\\' :: c :: rest, here => text rest ((here.next '\\').next c)
    | '$' :: '{' :: rest, here => ⟨'$' :: '{' :: rest, here⟩
    | c :: rest, here => if c == '\x60' then ⟨c :: rest, here⟩ else text rest (here.next c)
  step : Reader (Option Node) := do
    let cursor ← get
    let cursor := text cursor.rest cursor.here
    set cursor
    match cursor.rest with
    | '$' :: _ =>
      modify (·.drop 2)
      let node ← part
      Reader.mark '}'
      return some node
    | [] => Reader.fail
    | _ => return none

/-- The name of a property or member: a word, a private word, a string, a number or an expression
in brackets. -/
def propertyName : Reader Node := do
  match ← Reader.peek with
  | none => Reader.fail
  | some c =>
    if c == '[' then
      Reader.node .propertyName do
        Reader.mark '['
        let node ← g.parse (.expression .enclosed)
        Reader.mark ']'
        return [node]
    else if c == '#' then
      Reader.node .propertyName do
        Reader.mark '#'
        let (word, _) := wordAt (← get).rest
        if word.isEmpty then Reader.fail
        modify (·.drop word.length)
        return []
    else if c == '\x22' || c == '\x27' then Reader.quoted
    else if c.isDigit || c == '.' then Reader.number
    else Reader.wordNode .propertyName

/-- Whether the next token begins a property name. -/
def atPropertyName : Reader Bool := do
  match ← Reader.peek with
  | none => return false
  | some c =>
    return c == '[' || c == '#' || c == '\x22' || c == '\x27' || c.isDigit ||
      !(← Reader.peekWord).isEmpty

/-- The words among `words` that stand before a property name. A word is one only if the name
follows it in the same line or where a line break cannot end the member. -/
def modifiers (words : List String) : Reader (List String) :=
  Reader.repeated step g.bound
where
  step : Reader (Option String) := do
    let word ← Reader.peekWord
    if !words.contains word then return none
    Reader.attempt do
      Reader.word word
      if ← g.atLineEnd false then Reader.fail
      if (← atPropertyName) || (← Reader.atMark '*') then return word
      Reader.fail

/-- What follows an at sign: a name, a member of one, a call of either, or an expression in
parentheses. -/
def decorator : Reader Node := Reader.node .decorator do
  Reader.mark '@'
  if ← Reader.atMark '(' then
    Reader.mark '('
    let node ← g.sequence .enclosed
    Reader.mark ')'
    return [node]
  Reader.skipGap
  let start ← Reader.here
  let base ← Reader.wordNode .identifier
  let name ← Reader.iterated (member start) g.bound base
  let types ← if g.dialect.typed && (← Reader.atMark '<') then typeArguments else pure []
  if ← Reader.atMark '(' then
    let arguments ← g.arguments
    return [← Reader.nodeFrom .callExpression start ([name.withRole .callee] ++ types ++ [arguments])]
  return [name]
where
  member (start : Position) (receiver : Node) : Reader (Option Node) := do
    if ← Reader.symbol? "." then
      let property ← Reader.wordNode .propertyName
      return some (← Reader.nodeFrom .memberExpression start
        [receiver.withRole .receiver, property.withRole .property])
    else return none
  typeArguments : Reader (List Node) := do
    Reader.mark '<'
    g.items '>' false (g.parse (.type .enclosed))

def decorators : Reader (List Node) :=
  Reader.repeated (do if ← Reader.atMark '@' then return some (← g.decorator) else return none) g.bound

/-- Types between angle brackets. -/
def typeArguments : Reader Node := Reader.node .typeExpression do
  Reader.mark '<'
  let types ← g.items '>' false (g.parse (.type .enclosed))
  if types.isEmpty then Reader.fail
  return types

end Grammar

end CodeAtlas.Script

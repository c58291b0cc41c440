import CodeAtlas.Script.Class
import CodeAtlas.Script.Markup

namespace CodeAtlas.Script.Grammar

variable (g : Grammar)

/-- Operators between two operands. -/
def binaryOperators : List String :=
  ["&&", "||", "??", ">>", ">>>", "<<", "&", "^", "|", "+", "-", "*", "/", "%", "**", "<", "<=",
    "==", "===", "!=", "!==", ">=", ">"]

/-- Operators that give a new value to what stands before them. -/
def assignmentOperators : List String :=
  ["=", "+=", "-=", "*=", "/=", "%=", "^=", "&=", "|=", ">>=", ">>>=", "<<=", "**=", "&&=", "||=",
    "??="]

/-- An expression: operands joined by operators, perhaps as the condition of a choice. -/
def expressionRule (place : Place) : Reader Node := do
  Reader.skipGap
  let start ← Reader.here
  let first ← g.parse (.operand place)
  let rest ← Reader.repeated joined g.bound
  let test ← if rest.isEmpty then pure first else Reader.nodeFrom .expression start (first :: rest)
  if ← g.cutOff place true then return test
  if !(← Reader.symbol? "?") then return test
  let branches ← Reader.orElse (choice .enclosed) (choice .chosen)
  Reader.nodeFrom .expression start (test :: branches)
where
  joined : Reader (Option Node) := do
    if ← g.cutOff place true then return none
    let symbol ← Reader.peekSymbol
    if binaryOperators.contains symbol then
      Reader.symbol symbol
      return some (← g.parse (.operand place))
    let word ← Reader.peekWord
    if word == "in" || word == "instanceof" then
      Reader.word word
      return some (← g.parse (.operand place))
    if g.dialect.typed && (word == "as" || word == "satisfies") then
      Reader.word word
      return some (← g.parse (.type place))
    return none
  choice (middle : Place) : Reader (List Node) := do
    let accepted ← g.parse (.expression middle)
    Reader.mark ':'
    let refused ← g.parse (.expression place)
    return [accepted, refused]

/-- The result of an arrow function: a block or an expression. -/
def arrowBody (place : Place) : Reader Node := do
  Reader.symbol "=>"
  if ← Reader.atMark '{' then Reader.orElse g.body value else value
where
  value : Reader Node := do return (← g.parse (.expression place)).withRole .body

/-- An arrow function from its parameters on. -/
def arrowRest (start : Position) (place : Place) : Reader Node := do
  let types ← g.typeParameters?
  let parameters ← if types.isEmpty && !(← Reader.atMark '(') then Reader.wordNode .identifier
    else g.parameters
  let result ← if place = .chosen then pure [] else g.resultType? .enclosed
  let body ← g.arrowBody place
  Reader.nodeFrom .arrowFunction start (types ++ [parameters] ++ result ++ [body])

/-- A function literal from the word `function` on. -/
def functionLiteral (start : Position) : Reader Node := do
  Reader.word "function"
  let generator ← Reader.mark? '*'
  let name ← if (← Reader.peekWord).isEmpty then pure []
    else pure [(← Reader.wordNode .identifier).withRole .name]
  let signature ← g.signature .enclosed
  let body ← g.body
  Reader.nodeFrom (if generator then .generatorFunction else .functionExpression) start
    (name ++ signature ++ [body])

def classLiteral : Reader Node := Reader.node .classExpression do
  let decorators ← g.decorators
  Reader.word "class"
  return decorators ++ (← g.classRest false)

/-- A property after a point. -/
def memberName : Reader Node := do
  if ← Reader.atMark '#' then g.propertyName else Reader.wordNode .propertyName

/-- Code in parentheses. -/
def parenthesized : Reader Node := Reader.node .parenthesized do
  Reader.mark '('
  let node ← g.sequence .enclosed
  let annotation ← g.annotation? .enclosed
  Reader.mark ')'
  return node :: annotation

/-- Reads `literal`, or a pattern if that is followed by an equals sign. -/
def literalOrPattern (literal : Reader Node) : Reader Node :=
  Reader.orElse literal do
    let pattern ← g.parse .pattern
    if !(← Reader.atSymbol "=") then Reader.fail
    return .mk .array none pattern.span pattern.children

def objectLiteral : Reader Node := Reader.node .object do
  Reader.mark '{'
  g.items '}' true g.property

def arrayLiteral : Reader Node := Reader.node .array do
  Reader.mark '['
  g.items ']' true g.spread

/-- Words that stand for a value of their own. -/
def valueWords : List String :=
  ["this", "super", "true", "false", "null", "undefined", "import"]

/-- An expression that no operator, call or access is part of. -/
def primary : Reader Node := do
  match ← Reader.peek with
  | none => Reader.fail
  | some c =>
    if c == '(' then g.parenthesized
    else if c == '{' then g.literalOrPattern g.objectLiteral
    else if c == '[' then g.literalOrPattern g.arrayLiteral
    else if c == '\x60' then g.template (g.sequence .enclosed)
    else if c == '\x22' || c == '\x27' then Reader.quoted
    else if c == '/' then Reader.pattern
    else if c.isDigit || c == '.' then Reader.number
    else if c == '#' then g.propertyName
    else if c == '@' then g.classLiteral
    else
      let word ← Reader.peekWord
      if word == "function" then g.functionLiteral (← Reader.here)
      else if word == "class" then g.classLiteral
      else if valueWords.contains word then Reader.wordNode .keyword
      else Reader.wordNode .identifier

/-- Type arguments of a value. What follows must not be an operand, which would make the brackets
comparisons. -/
def valueTypeArguments : Reader Node := do
  if !(g.dialect.typed && (← Reader.atSymbol "<")) then Reader.fail
  let types ← g.typeArguments
  if ← Reader.atBreak then return types
  match ← Reader.peek with
  | none => return types
  | some c =>
    if "(\x60)]\x7b\x7d,;:.?=&|^*%!>".toList.contains c then return types
    if ["as", "satisfies", "in", "instanceof"].contains (← Reader.peekWord) then return types
    Reader.fail

/-- A property, an element, a template or a mark that it is not null, after the value it is of. -/
def access (start : Position) (value : Node) : Reader (Option Node) := do
  match ← Reader.peekSymbol with
  | "." =>
    Reader.symbol "."
    return some (← member start value)
  | "[" =>
    Reader.mark '['
    let index ← g.sequence .enclosed
    Reader.mark ']'
    return some (← Reader.nodeFrom .subscriptExpression start [value, index])
  | "\x60" =>
    let template ← g.template (g.sequence .enclosed)
    return some (← Reader.nodeFrom .callExpression start [value.withRole .callee, template])
  | "!" =>
    if !g.dialect.typed then return none
    Reader.symbol "!"
    return some (← Reader.nodeFrom .nonNullExpression start [value])
  | _ => return none
where
  member (start : Position) (value : Node) : Reader Node := do
    let property ← g.memberName
    Reader.nodeFrom .memberExpression start [value.withRole .receiver, property.withRole .property]

/-- A call of the value before it. -/
def call (start : Position) (value : Node) (types : List Node) : Reader Node := do
  let arguments ← g.arguments
  Reader.nodeFrom .callExpression start (value.withRole .callee :: types ++ [arguments])

/-- What `new` makes: a value without calls, perhaps with type arguments and arguments. -/
def construction (place : Place) : Reader Node := do
  Reader.skipGap
  let start ← Reader.here
  Reader.word "new"
  if ← Reader.symbol? "." then
    let _ ← Reader.wordNode .identifier
    return ← Reader.nodeFrom .expression start []
  if !g.dialect.typed && (← Reader.atWord "new") then
    return ← Reader.nodeFrom .newExpression start [← g.parse (.operand place)]
  Reader.skipGap
  let inner ← Reader.here
  let made ← Reader.iterated (part inner) g.bound (← g.primary)
  let types ← if ← g.cutOff place true then pure none else Reader.attempt g.valueTypeArguments
  let cut ← g.cutOff place true
  let arguments ← if !cut && (← Reader.atMark '(') then pure [← g.arguments] else pure []
  Reader.nodeFrom .newExpression start (made :: types.toList ++ arguments)
where
  part (inner : Position) (made : Node) : Reader (Option Node) := do
    if ← g.cutOff place true then return none
    g.access inner made

/-- What may follow a value: an access, a call, type arguments, or a step up or down. -/
def suffix (place : Place) (start : Position) (value : Node) : Reader (Option Node) := do
  if ← g.cutOff place true then return none
  match ← Reader.peekSymbol with
  | "(" => return some (← g.call start value [])
  | "?." =>
    Reader.symbol "?."
    if ← Reader.atMark '(' then return some (← g.call start value [])
    if g.dialect.typed && (← Reader.atMark '<') then
      return some (← g.call start value [← g.typeArguments])
    if (← Reader.atMark '[') || (← Reader.atMark '\x60') then return ← g.access start value
    let property ← g.memberName
    return some (← Reader.nodeFrom .memberExpression start
      [value.withRole .receiver, property.withRole .property])
  | "<" =>
    match ← Reader.attempt g.valueTypeArguments with
    | none => return none
    | some types =>
      if ← Reader.atMark '(' then return some (← g.call start value [types])
      else return some (← Reader.nodeFrom .expression start [value, types])
  | "++" =>
    Reader.symbol "++"
    return some (← Reader.nodeFrom .expression start [value])
  | "--" =>
    Reader.symbol "--"
    return some (← Reader.nodeFrom .expression start [value])
  | _ => g.access start value

/-- The kinds of what a value can be assigned to. -/
def assignable : List Kind :=
  [.identifier, .memberExpression, .subscriptExpression, .parenthesized, .object, .array,
    .nonNullExpression, .keyword]

/-- A value with all that follows it, assignments included. -/
def completed (place : Place) (start : Position) (value : Node) : Reader Node := do
  let value ← Reader.iterated (g.suffix place start) g.bound value
  if !assignable.contains value.kind then return value
  if ← g.cutOff place true then return value
  let symbol ← Reader.peekSymbol
  if !assignmentOperators.contains symbol then return value
  Reader.symbol symbol
  let right ← g.parse (.expression place)
  Reader.nodeFrom .assignment start [value, right]

/-- An arrow function: one with a block may be called or accessed like any value. -/
def arrow (place : Place) (start : Position) (arrow : Reader Node) : Reader Node := do
  let node ← arrow
  if (node.child? .body).any (·.kind == .statementBlock) then g.completed place start node
  else return node

/-- An operator before its operand. -/
def prefixed (place : Place) (operator : Reader Unit) : Reader Node := Reader.node .expression do
  operator
  return [← g.parse (.operand place)]

/-- What a generator yields, which may be nothing. -/
def yielded (place : Place) : Reader Node := Reader.node .expression do
  Reader.word "yield"
  if ← Reader.mark? '*' then return [← g.parse (.expression place)]
  if ← g.cutOff place true then return []
  match ← Reader.peek with
  | none => return []
  | some c =>
    if ")]\x7d,;:".toList.contains c then return []
    return [← g.parse (.expression place)]

/-- An operand that begins with a word. -/
def wordOperand (place : Place) (start : Position) (word : String) : Reader Node := do
  if ["typeof", "void", "delete", "await"].contains word then
    return ← g.prefixed place (Reader.word word)
  if word == "yield" then return ← g.yielded place
  if word == "new" && !(← Reader.ahead wordAlone) then
    return ← g.completed place start (← g.construction place)
  if word == "using" then
    if let some node ← Reader.attempt resource then return node
  if word == "async" then return ← Reader.orElse asynchronous plain
  plain
where
  /-- Where types are allowed, a line break may end a statement after `new`, which is a name then. -/
  wordAlone : Reader Unit := do
    Reader.word "new"
    if !g.dialect.typed then Reader.fail
    if !(← g.cutOff place true) then Reader.fail
  plain : Reader Node := do
    let value ← g.primary
    if value.kind == .identifier && (← Reader.atSymbol "=>") then
      let body ← g.arrowBody place
      return ← g.arrow place start (Reader.nodeFrom .arrowFunction start [value, body])
    g.completed place start value
  asynchronous : Reader Node := do
    Reader.word "async"
    if ← g.cutOff place true then Reader.fail
    if ← Reader.atWord "function" then
      let node ← g.functionLiteral start
      g.completed place start node
    else g.arrow place start (g.arrowRest start place)
  resource : Reader Node := do
    Reader.word "using"
    if ← Reader.atBreak then Reader.fail
    let node ← g.parse (.operand place)
    if node.kind != .assignment then Reader.fail
    return node

/-- An operand: operators before a value, a function, or a value with what follows it. -/
def operandRule (place : Place) : Reader Node := do
  Reader.skipGap
  let start ← Reader.here
  let word ← Reader.peekWord
  if !word.isEmpty then return ← g.wordOperand place start word
  match ← Reader.peekSymbol with
  | "(" =>
    Reader.orElse (g.arrow place start (g.arrowRest start place))
      (do g.completed place start (← g.parenthesized))
  | "<" => angled start
  | "<<" => angled start
  | symbol =>
    if ["!", "~", "+", "-", "++", "--"].contains symbol then
      g.prefixed place (Reader.symbol symbol)
    else g.completed place start (← g.primary)
where
  /-- An angle bracket begins type parameters, an element, or a type for the next operand. -/
  angled (start : Position) : Reader Node := do
    let other : Reader Node :=
      if g.dialect.markup then g.parse .element
      else Reader.node .expression do
        let types ← g.typeArguments
        return [types, ← g.parse (.operand place)]
    if g.dialect.typed then
      Reader.orElse (g.arrow place start (g.arrowRest start place)) other
    else other

end CodeAtlas.Script.Grammar

import CodeAtlas.Script.Grammar

namespace CodeAtlas.Script.Grammar

variable (g : Grammar)

/-- The type after a colon, if types are allowed and one is stated. -/
def annotation? (place : Place) : Reader (List Node) := do
  if g.dialect.typed then
    if ← Reader.mark? ':' then return [← g.parse (.type place)]
  return []

/-- The value after an equals sign, if one is stated. -/
def default? (place : Place) : Reader (List Node) := do
  return (← g.initializer? place).toList

/-- A pattern with an optional default. -/
def element : Reader Node := do
  Reader.skipGap
  let start ← Reader.here
  if ← Reader.symbol? "..." then
    return ← Reader.nodeFrom .pattern start [← g.parse .pattern]
  let target ← g.parse .pattern
  match ← g.initializer? .enclosed with
  | some value => Reader.nodeFrom .pattern start [target, value]
  | none => return target

/-- A property of an object pattern: a name, or a name with a pattern after a colon. -/
def propertyPattern : Reader Node := do
  if ← Reader.atSymbol "..." then return ← g.element
  Reader.node .pattern do
    let name ← g.propertyName
    if ← Reader.mark? ':' then return [name, ← g.element]
    else return name :: (← g.default? .enclosed)

/-- A binding: a word, a member of one, or an object or array of patterns. -/
def patternRule : Reader Node := do
  match ← Reader.peek with
  | some '{' => Reader.node .pattern do
    Reader.mark '{'
    g.items '}' true g.propertyPattern
  | some '[' => Reader.node .pattern do
    Reader.mark '['
    g.items ']' true g.element
  | _ =>
    Reader.skipGap
    let start ← Reader.here
    let base ← Reader.wordNode .identifier
    Reader.iterated (member start) g.bound base
where
  member (start : Position) (receiver : Node) : Reader (Option Node) := do
    if ← Reader.symbol? "." then
      let property ← g.propertyName
      return some (← Reader.nodeFrom .memberExpression start
        [receiver.withRole .receiver, property.withRole .property])
    if ← Reader.atMark '[' then
      Reader.mark '['
      let index ← g.sequence .enclosed
      Reader.mark ']'
      return some (← Reader.nodeFrom .subscriptExpression start [receiver, index])
    return none

/-- A word that declares a name, or an object or array of patterns. -/
def binding : Reader Node := do
  match ← Reader.peek with
  | some '{' => g.parse .pattern
  | some '[' => g.parse .pattern
  | _ => Reader.wordNode .identifier

/-- Words before a parameter that make it a property. -/
def parameterModifiers : List String :=
  ["public", "private", "protected", "override", "readonly"]

def skipParameterModifiers : Reader Unit := do
  let _ ← Reader.repeated step g.bound
where
  step : Reader (Option Unit) := do
    if !parameterModifiers.contains (← Reader.peekWord) then return none
    Reader.attempt do
      let _ ← Reader.wordNode .identifier
      match ← Reader.peek with
      | some '{' => return
      | some '[' => return
      | some '.' => return
      | _ => if (← Reader.peekWord).isEmpty then Reader.fail

def parameter : Reader Node := Reader.node .pattern do
  let decorators ← g.decorators
  if g.dialect.typed then g.skipParameterModifiers
  let spread ← Reader.symbol? "..."
  let target ← g.parse .pattern
  if g.dialect.typed && !spread then
    let _ ← Reader.mark? '?'
  let annotation ← g.annotation? .enclosed
  let initial ← g.default? .enclosed
  return decorators ++ [target] ++ annotation ++ initial

def parameters : Reader Node := Reader.node .parameters do
  Reader.mark '('
  g.items ')' false g.parameter

/-- A type parameter with its bound and its default. -/
def typeParameter : Reader Node := Reader.node .typeExpression do
  skipVariance
  let _ ← Reader.wordNode .identifier
  let upper ← if ← Reader.word? "extends" then pure [← g.parse (.type .enclosed)] else pure []
  let initial ← if ← Reader.symbol? "=" then pure [← g.parse (.type .enclosed)] else pure []
  return upper ++ initial
where
  /-- `const`, `in` and `out` before the name. -/
  skipVariance : Reader Unit := do
    let _ ← Reader.repeated step g.bound
  step : Reader (Option Unit) := do
    if !(["const", "in", "out"].contains (← Reader.peekWord)) then return none
    Reader.attempt do
      let _ ← Reader.wordNode .identifier
      let next ← Reader.peekWord
      if next.isEmpty || next == "extends" then Reader.fail

/-- Type parameters between angle brackets, if types are allowed and there are any. -/
def typeParameters? : Reader (List Node) := do
  if !g.dialect.typed then return []
  if !(← Reader.atMark '<') then return []
  Reader.mark '<'
  let found ← g.items '>' false g.typeParameter
  if found.isEmpty then Reader.fail
  return found

/-- The type of a result: a type, or what a call says about one of its arguments. -/
def resultType (place : Place) : Reader Node :=
  Reader.orElse claim (g.parse (.type place))
where
  claim : Reader Node := Reader.node .typeExpression do
    if ← Reader.atWord "asserts" then
      Reader.word "asserts"
      let _ ← Reader.wordNode .identifier
      if ← Reader.word? "is" then return [← g.parse (.type place)] else return []
    let _ ← Reader.wordNode .identifier
    Reader.word "is"
    return [← g.parse (.type place)]

/-- The result type after a colon, if one is stated. -/
def resultType? (place : Place) : Reader (List Node) := do
  if g.dialect.typed then
    if ← Reader.mark? ':' then return [← g.resultType place]
  return []

/-- Type parameters, parameters and result type. -/
def signature (place : Place) : Reader (List Node) := do
  let types ← g.typeParameters?
  let parameters ← g.parameters
  let result ← g.resultType? place
  return types ++ [parameters] ++ result

/-- The body of a function. -/
def body : Reader Node := do
  return (← g.parse .block).withRole .body

end CodeAtlas.Script.Grammar

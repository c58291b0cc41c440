import CodeAtlas.Script.Signature
import CodeAtlas.Script.Types

namespace CodeAtlas.Script.Grammar

variable (g : Grammar)

/-- Words before a class member. -/
def classModifiers : List String :=
  if g.dialect.typed then
    ["public", "private", "protected", "static", "override", "readonly", "declare", "abstract",
      "accessor", "async", "get", "set"]
  else ["static", "async", "get", "set"]

/-- A block of statements that runs once for the class. -/
def staticBlock : Reader Node := Reader.node .staticBlock do
  Reader.word "static"
  return [← g.body]

/-- The end of a member without body. -/
def memberEnd (operand : Bool) : Reader Unit := do
  if g.dialect.typed then
    if ← Reader.mark? ',' then return
  g.statementEnd operand

/-- A field after its name. -/
def fieldRest (start : Position) (before : List Node) : Reader Node := do
  if g.dialect.typed && !(← g.atLineEnd false) then
    if !(← Reader.mark? '?') then
      let _ ← Reader.symbol? "!"
  let annotation ← if ← g.atLineEnd false then pure [] else g.annotation? .final
  let initial ← if ← g.atLineEnd false then pure [] else g.default? .final
  let node ← Reader.nodeFrom .fieldDefinition start (before ++ annotation ++ initial)
  g.memberEnd !initial.isEmpty
  return node

/-- A method after its name: with a body, or only declared. -/
def methodRest (start : Position) (before : List Node) : Reader Node := do
  if g.dialect.typed then
    let _ ← Reader.mark? '?'
  let signature ← g.signature .final
  if ← Reader.atMark '{' then
    let body ← g.body
    Reader.nodeFrom .methodDefinition start (before ++ signature ++ [body])
  else if g.dialect.typed then
    let node ← Reader.nodeFrom .methodSignature start (before ++ signature)
    g.memberEnd false
    return node
  else Reader.fail

/-- Whether a method's parameters follow, after a question mark if types are allowed. -/
def atParameters : Reader Bool := fun cursor =>
  match look cursor with
  | .ok (answer, _) => .ok (answer, cursor)
  | .error failure => .error failure
where
  look : Reader Bool := do
    if g.dialect.typed then
      let _ ← Reader.mark? '?'
    return (← Reader.atMark '(') || (g.dialect.typed && (← Reader.atMark '<'))

/-- A member of a class with the decorators before it. Those of a method are siblings of it where
types are allowed and children of it elsewhere. -/
def classMember : Reader (List Node) := do
  Reader.skipGap
  let outer ← Reader.here
  let decorators ← g.decorators
  Reader.skipGap
  let inner ← Reader.here
  if ← Reader.ahead (do Reader.word "static"; Reader.mark '{') then
    return decorators ++ [← g.staticBlock]
  let words ← g.modifiers g.classModifiers
  if g.dialect.typed && words.all (fun word => word == "static" || word == "readonly") then
    if ← Reader.atMark '[' then
      if let some nodes ← Reader.attempt indexed then
        let node ← Reader.nodeFrom .methodSignature inner nodes
        return decorators ++ [node]
  let generator ← Reader.mark? '*'
  let name := (← g.propertyName).withRole .name
  let cut ← if generator then pure false else g.atLineEnd false
  if !cut && (← g.atParameters) then
    if g.dialect.typed then return decorators ++ [← g.methodRest inner [name]]
    else return [← g.methodRest outer (decorators ++ [name])]
  else if generator then Reader.fail
  else return decorators ++ [← g.fieldRest inner [name]]
where
  indexed : Reader (List Node) := do
    let nodes ← g.indexSignature
    g.memberEnd false
    return nodes

/-- The members of a class, in braces. -/
def classBody : Reader Node := Reader.node .classBody do
  Reader.mark '{'
  let members ← Reader.repeated member g.bound
  Reader.mark '}'
  return members.flatten
where
  member : Reader (Option (List Node)) := do
    if ← Reader.mark? ';' then return some []
    if ← Reader.atMark '}' then return none
    Reader.skipGap
    return some (← Reader.blame g.classMember)

/-- What a class extends and implements. -/
def classHeritage? : Reader (List Node) := do
  let word ← Reader.peekWord
  if word == "extends" || (g.dialect.typed && word == "implements") then
    let node ← Reader.node .classHeritage do
      let extended ← if ← Reader.word? "extends" then
        if g.dialect.typed then pure (← g.listed value) else pure [← g.parse (.operand .enclosed)]
        else pure []
      let implemented ← if g.dialect.typed && (← Reader.word? "implements") then
        g.listed (g.parse (.type .enclosed)) else pure []
      return extended ++ implemented
    return [node]
  return []
where
  value : Reader Node := do
    Reader.skipGap
    let start ← Reader.here
    let base ← g.parse (.operand .enclosed)
    if ← Reader.atMark '<' then
      Reader.nodeFrom .expression start [base, ← g.typeArguments]
    else return base

/-- A class after the word `class`. -/
def classRest (named : Bool) : Reader (List Node) := do
  let word ← Reader.peekWord
  let anonymous := !named && (word.isEmpty || word == "extends" ||
    (g.dialect.typed && word == "implements"))
  let name ← if anonymous then pure []
    else pure [(← Reader.wordNode .identifier).withRole .name]
  let types ← g.typeParameters?
  let heritage ← g.classHeritage?
  let body ← g.classBody
  return name ++ types ++ heritage ++ [body.withRole .body]

/-- A property of an object literal. -/
def property : Reader Node := do
  if ← Reader.atSymbol "..." then return ← g.spread
  Reader.skipGap
  let start ← Reader.here
  let words ← methodModifiers
  let generator ← Reader.mark? '*'
  let name := (← g.propertyName).withRole .name
  if ← g.atParameters then
    if g.dialect.typed then
      let _ ← Reader.mark? '?'
    let signature ← g.signature .enclosed
    let body ← g.body
    return ← Reader.nodeFrom .methodDefinition start (name :: signature ++ [body])
  if generator || !words.isEmpty then Reader.fail
  if ← Reader.mark? ':' then
    let value ← g.parse (.expression .enclosed)
    return ← Reader.nodeFrom .expression start [name, value.withRole .value]
  if name.kind != .propertyName || !name.children.isEmpty then Reader.fail
  return name
where
  methodModifiers : Reader (List String) :=
    Reader.repeated step g.bound
  step : Reader (Option String) := do
    let word ← Reader.peekWord
    if !(["async", "get", "set", "static"].contains word) then return none
    Reader.attempt do
      Reader.word word
      if (← atPropertyName) || (word == "async" && (← Reader.atMark '*')) then return word
      Reader.fail

end CodeAtlas.Script.Grammar

import CodeAtlas.Script.Signature

namespace CodeAtlas.Script.Grammar

variable (g : Grammar)

/-- A function type, from its type parameters to its result. -/
def functionType (place : Place) : Reader (List Node) := do
  let types ← g.typeParameters?
  let parameters ← g.parameters
  Reader.symbol "=>"
  let result ← g.resultType place
  return types ++ [parameters, result]

/-- Names with points between them, and the type arguments of the last. -/
def namedType (place : Place) : Reader (List Node) := do
  let _ ← Reader.wordNode .identifier
  let _ ← Reader.repeated member g.bound
  if ← g.cutOff place false then return []
  if ← Reader.atMark '<' then return [← g.typeArguments] else return []
where
  member : Reader (Option Unit) := do
    if ← Reader.symbol? "." then
      let _ ← Reader.wordNode .identifier
      return some ()
    else return none

/-- What `typeof` asks about: a value, its members, and a call or type arguments at the end. -/
def queriedValue (place : Place) : Reader (List Node) := do
  Reader.skipGap
  let start ← Reader.here
  let base ← do
    if ← Reader.atWord "import" then
      Reader.word "import"
      let arguments ← g.arguments
      Reader.nodeFrom .expression start [arguments]
    else Reader.wordNode .identifier
  let value ← Reader.iterated (member start) g.bound base
  if ← g.cutOff place false then return [value]
  if ← Reader.atMark '(' then
    let arguments ← g.arguments
    return [← Reader.nodeFrom .callExpression start [value.withRole .callee, arguments]]
  if ← Reader.atMark '<' then return [value, ← g.typeArguments]
  return [value]
where
  member (start : Position) (receiver : Node) : Reader (Option Node) := do
    if (← Reader.symbol? ".") || (← Reader.symbol? "?.") then
      let property ← g.propertyName
      return some (← Reader.nodeFrom .memberExpression start
        [receiver.withRole .receiver, property.withRole .property])
    return none

/-- An element of a tuple: a type with an optional label, repetition and question mark. -/
def tupleElement : Reader Node := Reader.node .typeExpression do
  let _ ← Reader.symbol? "..."
  Reader.orElse labelled do
    let type ← g.parse (.type .enclosed)
    let _ ← Reader.mark? '?'
    return [type]
where
  labelled : Reader (List Node) := do
    let _ ← Reader.wordNode .identifier
    let _ ← Reader.mark? '?'
    Reader.mark ':'
    return [← g.parse (.type .enclosed)]

/-- Words before a member of an object type. -/
def memberModifiers : List String :=
  ["readonly", "get", "set", "static", "async", "public", "private", "protected", "override"]

/-- `[key: string]` or `[Key in Keys as Name]` with the type of what it names. -/
def indexSignature : Reader (List Node) := do
  Reader.mark '['
  let _ ← Reader.wordNode .identifier
  let key ← do
    if ← Reader.mark? ':' then pure [← g.parse (.type .enclosed)]
    else
      Reader.word "in"
      let keys ← g.parse (.type .enclosed)
      if ← Reader.word? "as" then pure [keys, ← g.parse (.type .enclosed)] else pure [keys]
  Reader.mark ']'
  if (← Reader.mark? '-') || (← Reader.mark? '+') then Reader.mark '?'
  else
    let _ ← Reader.mark? '?'
  return key ++ (← g.annotation? .final)

/-- A member of an object type. -/
def typeMember : Reader Node := Reader.node .typeExpression do
  if (← Reader.atMark '(') || (← Reader.atMark '<') then return ← g.signature .final
  if ← Reader.atWord "new" then
    if let some nodes ← Reader.attempt constructor then return nodes
  let _ ← g.modifiers memberModifiers
  if (← Reader.atMark '-') || (← Reader.atMark '+') then
    Reader.take 1
    Reader.word "readonly"
  if ← Reader.atMark '[' then
    if let some nodes ← Reader.attempt g.indexSignature then return nodes
  let _ ← Reader.mark? '*'
  let name ← g.propertyName
  let _ ← Reader.mark? '?'
  if ← g.atLineEnd false then return [name]
  if (← Reader.atMark '(') || (← Reader.atMark '<') then return name :: (← g.signature .final)
  return name :: (← g.annotation? .final)
where
  constructor : Reader (List Node) := do
    Reader.word "new"
    g.signature .final

/-- The members of an object type, in braces. -/
def objectType : Reader (List Node) := do
  Reader.mark '{'
  let found ← Reader.repeated member g.bound
  Reader.mark '}'
  return found
where
  skipSeparators : Reader Unit := do
    let _ ← Reader.repeated
      (do if (← Reader.mark? ';') || (← Reader.mark? ',') then return some () else return none) g.bound
  member : Reader (Option Node) := do
    skipSeparators
    if ← Reader.atMark '}' then return none
    let node ← g.typeMember
    if !(← Reader.mark? ',') then g.statementEnd false
    return some node

/-- A type that no operator is part of, but those that stand after it. -/
def typeOperand (place : Place) : Reader Node := Reader.node .typeExpression do
  let first ← base
  let rest ← Reader.repeated indexed g.bound
  return first ++ rest.filterMap id
where
  /-- Brackets after a type: empty for an array of it, with a type for a property of it. -/
  indexed : Reader (Option (Option Node)) := do
    if ← g.cutOff place false then return none
    if !(← Reader.atMark '[') then return none
    Reader.mark '['
    if ← Reader.mark? ']' then return some none
    let key ← g.parse (.type .enclosed)
    Reader.mark ']'
    return some (some key)
  enclosed : Reader (List Node) := do
    Reader.mark '('
    let type ← g.parse (.type .enclosed)
    Reader.mark ')'
    return [type]
  base : Reader (List Node) := do
    match ← Reader.peek with
    | none => Reader.fail
    | some c =>
      if c == '(' then Reader.orElse (g.functionType place) enclosed
      else if c == '<' then g.functionType place
      else if c == '{' then g.objectType
      else if c == '[' then
        Reader.mark '['
        g.items ']' false g.tupleElement
      else if c == '\x60' then return [← g.template (g.parse (.type .enclosed))]
      else if c == '\x22' || c == '\x27' then
        let _ ← Reader.quoted
        return []
      else if c == '*' then
        Reader.mark '*'
        return []
      else if c == '?' then
        Reader.mark '?'
        return [← g.parse (.type place)]
      else if c == '-' then
        Reader.mark '-'
        Reader.skipGap
        let _ ← Reader.number
        return []
      else if c.isDigit || c == '.' then
        let _ ← Reader.number
        return []
      else named
  named : Reader (List Node) := do
    let word ← Reader.peekWord
    match word with
    | "new" =>
      Reader.word "new"
      g.functionType place
    | "abstract" =>
      Reader.word "abstract"
      Reader.word "new"
      g.functionType place
    | "typeof" =>
      Reader.word "typeof"
      g.queriedValue place
    | "import" => importedType
    | "infer" =>
      Reader.word "infer"
      let _ ← Reader.wordNode .identifier
      if ← Reader.word? "extends" then return [← g.parse (.type .chosen)] else return []
    | _ =>
      if word == "keyof" || word == "readonly" || word == "unique" then
        if let some nodes ← Reader.attempt (operator word) then return nodes
      g.namedType place
  operator (word : String) : Reader (List Node) := do
    Reader.word word
    if ← g.cutOff place false then Reader.fail
    return [← g.parse (.typeOperand place)]
  importedType : Reader (List Node) := do
    Reader.word "import"
    let arguments ← g.arguments
    if ← Reader.symbol? "." then return arguments :: (← g.namedType place) else return [arguments]

/-- A type: operands joined by bars and ampersands, which may also stand before the first, and
perhaps a condition on it. -/
def typeRule (place : Place) : Reader Node := Reader.node .typeExpression do
  let _ ← joined
  let first ← g.parse (.typeOperand place)
  let rest ← Reader.repeated next g.bound
  if place = .chosen then return first :: rest
  if ← g.cutOff place false then return first :: rest
  if !(← Reader.word? "extends") then return first :: rest
  let upper ← g.parse (.type .chosen)
  Reader.symbol "?"
  let accepted ← g.parse (.type .enclosed)
  Reader.mark ':'
  let refused ← g.parse (.type place)
  return first :: rest ++ [upper, accepted, refused]
where
  joined : Reader Bool := do
    if ← Reader.symbol? "|" then return true
    Reader.symbol? "&"
  next : Reader (Option Node) := do
    if ← joined then return some (← g.parse (.typeOperand place)) else return none

end CodeAtlas.Script.Grammar

import CodeAtlas.Script.Module

namespace CodeAtlas.Script.Grammar

variable (g : Grammar)

/-- A name with its type and its value. -/
def declarator : Reader Node := Reader.node .variableDeclarator do
  let name ← g.binding
  if g.dialect.typed && !(← g.atLineEnd false) then
    let _ ← Reader.symbol? "!"
  let annotation ← g.annotation? .final
  let value ← if ← g.atLineEnd false then pure [] else g.default? .final
  return name.withRole .name :: annotation ++ value.map (·.withRole .value)

/-- Variables after the word that declares them. -/
def declarators : Reader (List Node) := do
  let listed ← g.listed g.declarator
  g.statementEnd true
  return listed

def variableDeclaration : Reader Node := Reader.node .variableDeclaration do
  Reader.word "var"
  g.declarators

def lexicalDeclaration : Reader Node := Reader.node .lexicalDeclaration do
  if !(← Reader.word? "const") then
    Reader.word "let"
    if ← g.atLineEnd true then Reader.fail
  g.declarators

/-- A named function, with a body or only declared. -/
def functionDeclaration : Reader Node := do
  Reader.skipGap
  let start ← Reader.here
  if ← Reader.word? "async" then
    if ← g.atLineEnd true then Reader.fail
  Reader.word "function"
  let generator ← Reader.mark? '*'
  let name := (← Reader.wordNode .identifier).withRole .name
  let signature ← g.signature .final
  if ← Reader.atMark '{' then
    let body ← g.body
    Reader.nodeFrom (if generator then .generatorFunctionDeclaration else .functionDeclaration) start
      (name :: signature ++ [body])
  else if g.dialect.typed && !generator then
    g.statementEnd false
    Reader.nodeFrom .functionSignature start (name :: signature)
  else Reader.fail

/-- A named class after its decorators. -/
def classDeclaration (start : Position) (decorators : List Node) : Reader Node := do
  let abstract ← if g.dialect.typed then Reader.word? "abstract" else pure false
  Reader.word "class"
  let parts ← g.classRest true
  Reader.nodeFrom (if abstract then .abstractClassDeclaration else .classDeclaration) start
    (decorators ++ parts)

def interfaceDeclaration : Reader Node := Reader.node .interfaceDeclaration do
  Reader.word "interface"
  let name := (← Reader.wordNode .identifier).withRole .name
  let types ← g.typeParameters?
  let extended ← if ← Reader.word? "extends" then g.listed (g.parse (.type .enclosed)) else pure []
  let members ← g.objectType
  return name :: types ++ extended ++ members

def enumDeclaration : Reader Node := Reader.node .enumDeclaration do
  let _ ← Reader.word? "const"
  Reader.word "enum"
  let name := (← Reader.wordNode .identifier).withRole .name
  Reader.mark '{'
  let members ← g.items '}' false member
  return name :: members
where
  member : Reader Node := Reader.node .fieldDefinition do
    let name ← g.propertyName
    return name :: (← g.default? .enclosed)

def typeAlias : Reader Node := Reader.node .typeAliasDeclaration do
  Reader.word "type"
  if ← g.atLineEnd true then Reader.fail
  let name := (← Reader.wordNode .identifier).withRole .name
  let types ← g.typeParameters?
  Reader.symbol "="
  let value ← g.parse (.type .final)
  g.statementEnd false
  return name :: types ++ [value.withRole .value]

/-- A name space or the declaration of a module, with its statements. -/
def namespaceDeclaration : Reader Node := Reader.node .namespaceDeclaration do
  if !(← Reader.word? "namespace") then Reader.word "module"
  if ← g.atLineEnd true then Reader.fail
  let name ← if (← Reader.atMark '\x22') || (← Reader.atMark '\x27') then pure [← Reader.quoted]
    else g.dottedName
  if ← Reader.atMark '{' then return name ++ [← g.body] else return name

/-- A declaration of what exists elsewhere. -/
def ambient (declaration : Reader Node) : Reader Node := Reader.node .ambientDeclaration do
  Reader.word "declare"
  if ← g.atLineEnd true then Reader.fail
  if ← Reader.ahead (do Reader.word "global"; Reader.mark '{') then
    Reader.word "global"
    return [← g.body]
  return [← declaration]

/-- A declaration that begins with no other one. -/
def plainDeclaration : Reader Node := do
  Reader.skipGap
  let start ← Reader.here
  if ← Reader.atMark '@' then return ← g.classDeclaration start (← g.decorators)
  let word ← Reader.peekWord
  match word with
  | "var" => g.variableDeclaration
  | "let" => g.lexicalDeclaration
  | "const" =>
    if g.dialect.typed && (← Reader.ahead (do Reader.word "const"; Reader.word "enum")) then
      g.enumDeclaration
    else g.lexicalDeclaration
  | "function" => g.functionDeclaration
  | "async" => g.functionDeclaration
  | "class" => g.classDeclaration start []
  | _ =>
    if !g.dialect.typed then Reader.fail
    match word with
    | "abstract" => g.classDeclaration start []
    | "interface" => g.interfaceDeclaration
    | "enum" => g.enumDeclaration
    | "type" => g.typeAlias
    | "namespace" => g.namespaceDeclaration
    | "module" => g.namespaceDeclaration
    | "import" => g.importRule
    | _ => Reader.fail

def declaration : Reader Node := do
  if g.dialect.typed && (← Reader.atWord "declare") then g.ambient g.plainDeclaration
  else g.plainDeclaration

/-- Decorators with the exported class they belong to, or an export without. -/
def exportRule : Reader Node := Reader.node .exportStatement do
  let decorators ← g.decorators
  return decorators ++ (← g.exportRest g.declaration)

def expressionStatement : Reader Node := Reader.node .statement do
  let node ← g.sequence .final
  g.statementEnd true
  return [node]

/-- A statement of the kind that has no kind of its own, from the word that begins it. -/
def simple (word : String) (rest : Reader (List Node)) : Reader Node := Reader.node .statement do
  Reader.word word
  rest

/-- A condition in parentheses. -/
def condition : Reader Node := do
  Reader.mark '('
  let node ← g.sequence .enclosed
  Reader.mark ')'
  return node

def statement : Reader Node := g.parse .statement

def ifRest : Reader (List Node) := do
  let condition ← g.condition
  let consequence ← g.statement
  if ← Reader.word? "else" then return [condition, consequence, ← g.statement]
  return [condition, consequence]

/-- The head of a loop over the elements or keys of a value. -/
def elementHead : Reader (List Node) := do
  Reader.mark '('
  let word ← Reader.peekWord
  let target ←
    if word == "var" || word == "const" || (word == "let" && !(← Reader.ahead named)) then
      Reader.orElse (do Reader.word word; g.binding) (g.parse (.operand .enclosed))
    else g.parse (.operand .enclosed)
  joint
  let source ← g.sequence .enclosed
  Reader.mark ')'
  return [target, source]
where
  joint : Reader Unit := do
    if !(← Reader.word? "of") then Reader.word "in"
  /-- Whether `let` is a name here. -/
  named : Reader Unit := do
    Reader.word "let"
    joint

/-- The head of a loop with a start, a test and a step. -/
def countingHead : Reader (List Node) := do
  Reader.mark '('
  let start ← match ← Reader.peekWord with
    | "var" => pure [← g.variableDeclaration]
    | "let" => pure [← g.lexicalDeclaration]
    | "const" => pure [← g.lexicalDeclaration]
    | _ => optional ';'
  let test ← optional ';'
  let step ← optional ')'
  return start ++ test ++ step
where
  optional (close : Char) : Reader (List Node) := do
    if ← Reader.mark? close then return []
    let node ← g.sequence .enclosed
    Reader.mark close
    return [node]

def forRest : Reader (List Node) := do
  let _ ← Reader.word? "await"
  let head ← Reader.orElse g.elementHead g.countingHead
  return head ++ [← g.statement]

def doRest : Reader (List Node) := do
  let body ← g.statement
  Reader.word "while"
  let condition ← g.condition
  let _ ← Reader.mark? ';'
  return [body, condition]

/-- Statements up to a closing brace, the end of the source or one of the words. -/
def statements (stops : List String) : Reader (List Node) :=
  Reader.repeated step g.bound
where
  step : Reader (Option Node) := do
    match ← Reader.peek with
    | none => return none
    | some '}' => return none
    | some _ =>
      if !stops.isEmpty then
        if stops.contains (← Reader.peekWord) then return none
      return some (← g.statement)

def blockRule : Reader Node := Reader.node .statementBlock do
  Reader.mark '{'
  let found ← g.statements []
  Reader.mark '}'
  return found

def switchRest : Reader (List Node) := do
  let value ← g.condition
  Reader.mark '{'
  let cases ← Reader.repeated case g.bound
  Reader.mark '}'
  return value :: cases
where
  case : Reader (Option Node) := do
    match ← Reader.peekWord with
    | "case" => some <$> simple "case" do
      let value ← g.sequence .enclosed
      Reader.mark ':'
      return value :: (← g.statements ["case", "default"])
    | "default" => some <$> simple "default" do
      Reader.mark ':'
      g.statements ["case", "default"]
    | _ => return none

def tryRest : Reader (List Node) := do
  let block ← g.parse .block
  let handler ← if ← Reader.atWord "catch" then pure [← simple "catch" handled] else pure []
  let finalizer ← if ← Reader.word? "finally" then pure [← g.parse .block] else pure []
  return block :: handler ++ finalizer
where
  handled : Reader (List Node) := do
    let parameter ← if ← Reader.mark? '(' then
      (do
        let name ← g.binding
        let annotation ← g.annotation? .enclosed
        Reader.mark ')'
        return name :: annotation) else pure []
    return parameter ++ [← g.parse .block]

/-- What `return` gives back, which may be nothing. -/
def returnRest : Reader (List Node) := do
  if ← g.atLineEnd false then return []
  match ← Reader.peek with
  | none => return []
  | some c =>
    if c == ';' || c == '}' then
      g.statementEnd false
      return []
    let value ← g.sequence .final
    g.statementEnd true
    return [value]

def throwRest : Reader (List Node) := do
  let value ← g.sequence .final
  g.statementEnd true
  return [value]

/-- The label that `break` or `continue` names, if any. -/
def jumpRest : Reader (List Node) := do
  if ← g.atLineEnd false then return []
  if !(← Reader.peekWord).isEmpty then
    let _ ← Reader.wordNode .identifier
  g.statementEnd false
  return []

/-- A statement after its label, or an expression. -/
def otherStatement : Reader Node := do
  if ← Reader.ahead label then
    Reader.node .statement do
      label
      return [← g.statement]
  else g.expressionStatement
where
  label : Reader Unit := do
    let _ ← Reader.wordNode .identifier
    Reader.mark ':'

/-- A statement that begins with a word. -/
def wordStatement (word : String) : Reader Node := do
  match word with
  | "var" => g.declaration
  | "const" => g.declaration
  | "let" => Reader.orElse g.declaration g.otherStatement
  | "function" => Reader.orElse g.declaration g.expressionStatement
  | "class" => Reader.orElse g.declaration g.expressionStatement
  | "async" => Reader.orElse g.declaration g.otherStatement
  | "import" =>
    if ← Reader.ahead importExpression then g.expressionStatement else g.importRule
  | "export" => Reader.orElse g.exportRule g.otherStatement
  | "if" => simple word g.ifRest
  | "for" => simple word g.forRest
  | "while" => simple word (do return [← g.condition, ← g.statement])
  | "do" => simple word g.doRest
  | "switch" => simple word g.switchRest
  | "try" => simple word g.tryRest
  | "with" => simple word (do return [← g.condition, ← g.statement])
  | "return" => simple word g.returnRest
  | "throw" => simple word g.throwRest
  | "break" => simple word g.jumpRest
  | "continue" => simple word g.jumpRest
  | "debugger" => simple word (do g.statementEnd false; return [])
  | _ =>
    if g.dialect.typed then
      if ["abstract", "interface", "enum"].contains word then g.declaration
      else if ["type", "namespace", "module", "declare"].contains word then
        Reader.orElse g.declaration g.otherStatement
      else g.otherStatement
    else g.otherStatement
where
  importExpression : Reader Unit := do
    Reader.word "import"
    if !(← Reader.mark? '(') then Reader.mark '.'

/-- Any statement. A failure inside is blamed on the innermost statement it is in. -/
def statementRule : Reader Node := do
  Reader.skipGap
  Reader.blame do
    match ← Reader.peek with
    | none => Reader.fail
    | some c =>
      if c == '{' then Reader.orElse (g.parse .block) g.expressionStatement
      else if c == ';' then
        Reader.node .statement do
          Reader.mark ';'
          return []
      else if c == '@' then
        Reader.orElse g.exportRule (Reader.orElse g.declaration g.expressionStatement)
      else
        let word ← Reader.peekWord
        if word.isEmpty then g.expressionStatement else g.wordStatement word

/-- A whole source. -/
def programRule : Reader Node := Reader.node .program do
  let found ← g.statements []
  Reader.skipGap
  if (← get).rest.isEmpty then return found
  Reader.blame Reader.fail

end CodeAtlas.Script.Grammar

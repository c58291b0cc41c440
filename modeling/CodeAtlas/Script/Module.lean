import CodeAtlas.Script.Expression

namespace CodeAtlas.Script.Grammar

variable (g : Grammar)

/-- `from` and the file it names. -/
def fromClause : Reader Node := do
  Reader.word "from"
  return (← Reader.quoted).withRole .source

/-- What a module calls a binding: a word or a string. -/
def exportedName : Reader Node := do
  match ← Reader.peek with
  | some '\x22' => Reader.quoted
  | some '\x27' => Reader.quoted
  | _ => Reader.wordNode .identifier

/-- A name, or a name with another name for it here. -/
def importSpecifier : Reader Node := Reader.node .importSpecifier do
  Reader.orElse (do skipTypeWord; plain) plain
where
  skipTypeWord : Reader Unit := do
    if !(← Reader.word? "type") then Reader.word "typeof"
  plain : Reader (List Node) := do
    let name ← exportedName
    let found ← if ← Reader.word? "as" then
      pure [name.withRole .name, (← Reader.wordNode .identifier).withRole .alias]
      else if name.kind == .identifier then pure [name.withRole .name] else Reader.fail
    if (← Reader.atMark ',') || (← Reader.atMark '}') then return found
    Reader.fail

def namedImports : Reader Node := Reader.node .namedImports do
  Reader.mark '{'
  g.items '}' false importSpecifier

def namespaceImport : Reader Node := Reader.node .namespaceImport do
  Reader.mark '*'
  Reader.word "as"
  return [← Reader.wordNode .identifier]

/-- A default binding, a name space, names in braces, or a default with one of the others. -/
def importClause : Reader Node := Reader.node .importClause do
  if ← Reader.atMark '*' then return [← namespaceImport]
  if ← Reader.atMark '{' then return [← g.namedImports]
  let name ← Reader.wordNode .identifier
  if ← Reader.mark? ',' then
    if ← Reader.atMark '*' then return [name, ← namespaceImport]
    return [name, ← g.namedImports]
  return [name]

/-- `with` and an object that tells more about the file. -/
def importAttributes : Reader (List Node) := do
  if (← Reader.word? "with") || (← Reader.word? "assert") then return [← g.objectLiteral]
  return []

/-- Names with points between them. -/
def dottedName : Reader (List Node) := do
  let _ ← Reader.wordNode .identifier
  let _ ← Reader.repeated part g.bound
  return []
where
  part : Reader (Option Unit) := do
    if ← Reader.symbol? "." then
      let _ ← Reader.wordNode .identifier
      return some ()
    else return none

/-- A statement that imports. -/
def importRule : Reader Node := do
  Reader.skipGap
  let start ← Reader.here
  Reader.word "import"
  let found ← if (← Reader.atMark '\x22') || (← Reader.atMark '\x27') then bare
    else if g.dialect.typed then Reader.orElse (do typeWord; clause) clause
    else clause
  let kind := if found.isEmpty then Kind.importAlias else .importStatement
  let attributes ← if ← g.atLineEnd false then pure [] else g.importAttributes
  g.statementEnd false
  Reader.nodeFrom kind start (found ++ attributes)
where
  bare : Reader (List Node) := do return [(← Reader.quoted).withRole .source]
  typeWord : Reader Unit := do
    if !(← Reader.word? "type") then Reader.word "typeof"
  required : Reader (List Node) := do
    let clause ← Reader.node .importRequireClause do
      let name ← Reader.wordNode .identifier
      Reader.symbol "="
      Reader.word "require"
      Reader.mark '('
      let file ← Reader.quoted
      Reader.mark ')'
      return [name, file.withRole .source]
    return [clause]
  renamed : Reader (List Node) := do
    let _ ← Reader.wordNode .identifier
    Reader.symbol "="
    g.dottedName
  clause : Reader (List Node) := do
    let bindings : Reader (List Node) := do
      let names ← g.importClause
      return [names, ← fromClause]
    if g.dialect.typed then Reader.orElse bindings (Reader.orElse required renamed) else bindings

/-- An exported name, or one with another name outside. -/
def exportSpecifier : Reader Node := Reader.node .statement do
  if g.dialect.typed then Reader.orElse (do skipTypeWord; plain) plain else plain
where
  skipTypeWord : Reader Unit := do
    if !(← Reader.word? "type") then Reader.word "typeof"
  plain : Reader (List Node) := do
    let _ ← exportedName
    if ← Reader.word? "as" then
      let _ ← exportedName
    if (← Reader.atMark ',') || (← Reader.atMark '}') then return []
    Reader.fail

/-- Names in braces that are exported, perhaps from another file. -/
def exportClause : Reader (List Node) := do
  Reader.mark '{'
  let _ ← g.items '}' false g.exportSpecifier
  let source ← if ← Reader.atWord "from" then
    (if ← g.atLineEnd false then pure none else Reader.attempt fromClause) else pure none
  g.statementEnd false
  return source.toList

/-- All that another file exports, perhaps under one name. -/
def exportAll : Reader (List Node) := do
  Reader.mark '*'
  if ← Reader.word? "as" then
    let _ ← exportedName
  let source ← fromClause
  g.statementEnd false
  return [source]

/-- A statement that exports, after its decorators. -/
def exportRest (declaration : Reader Node) : Reader (List Node) := do
  Reader.word "export"
  if ← g.atLineEnd true then Reader.fail
  match ← Reader.peek with
  | some '*' => g.exportAll
  | some '{' => g.exportClause
  | some '=' =>
    if !g.dialect.typed then Reader.fail
    Reader.symbol "="
    let value ← g.parse (.expression .final)
    g.statementEnd true
    return [value.withRole .value]
  | _ =>
    if ← Reader.word? "default" then return ← Reader.orElse declared valued
    if g.dialect.typed then
      if ← Reader.ahead (do Reader.word "type"; Reader.mark '{') then
        Reader.word "type"
        return ← g.exportClause
      if ← Reader.ahead (do Reader.word "as"; Reader.word "namespace") then
        Reader.word "as"
        Reader.word "namespace"
        let _ ← Reader.wordNode .identifier
        g.statementEnd false
        return []
    declared
where
  declared : Reader (List Node) := do return [(← declaration).withRole .declaration]
  valued : Reader (List Node) := do
    let value ← g.parse (.expression .final)
    g.statementEnd true
    return [value.withRole .value]

end CodeAtlas.Script.Grammar

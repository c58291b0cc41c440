import CodeAtlas.Outline.Basic
import CodeAtlas.Script.Tree

namespace CodeAtlas.Outline

open Script

/-- What the nodes of a tree say in the source. -/
abbrev Wording := Node → String

variable (text : Wording)

/-- The name that a node declares, if it has one. -/
def name? (node : Node) : Option String :=
  ((node.child? .name).map text).filter (· != "")

/-- The name of a declared variable; a pattern has none. -/
def variableName? (node : Node) : Option String :=
  ((node.child? .name).filter (·.kind == .identifier)).map text

/-- Kinds of functions that are values. -/
def isFunctionValue : Kind → Bool
  | .arrowFunction => true
  | .functionExpression => true
  | .generatorFunction => true
  | _ => false

/-- The name that calls inside the node belong to, if the node is a function with a name of its
own: a declared function, or a function that a variable is declared to be. -/
def callerName? (node : Node) : Option String :=
  match node.kind with
  | .functionDeclaration => name? text node
  | .generatorFunctionDeclaration => name? text node
  | .variableDeclarator =>
    if (node.child? .value).any fun value => isFunctionValue value.kind then variableName? text node
    else none
  | _ => none

/-- The name under which a value is called: a word, or a property, with the word it is read from. -/
def calleeName? (callee : Node) : Option String :=
  match callee.kind with
  | .identifier => some (text callee)
  | .memberExpression =>
    (callee.child? .property).map fun property =>
      match callee.child? .receiver with
      | some receiver =>
        if receiver.kind == .identifier then text receiver ++ "." ++ text property else text property
      | none => text property
  | _ => none

/-- The call that the node itself is. -/
def ownCall (context : Option String) (node : Node) : List CallSite :=
  if node.kind == .callExpression then
    match (node.child? .callee).bind (calleeName? text) with
    | some callee => [⟨context, callee, node.firstRow + 1⟩]
    | none => []
  else []

mutual

/-- The calls in a node, the node itself first. A function with a name takes over from the
context. -/
def callsIn (context : Option String) : Node → List CallSite
  | .mk kind role span children =>
    match callerName? text (.mk kind role span children) with
    | some caller => callsBelow (some caller) children
    | none => ownCall text context (.mk kind role span children) ++ callsBelow context children

def callsBelow (context : Option String) : List Node → List CallSite
  | [] => []
  | child :: rest => callsIn context child ++ callsBelow context rest

end

end CodeAtlas.Outline

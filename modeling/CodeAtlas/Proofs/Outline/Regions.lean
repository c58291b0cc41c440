import CodeAtlas.Outline.Tree
import CodeAtlas.Proofs.Script.Address

namespace CodeAtlas.Outline

open Script

variable (text : Wording)

/-- The node at an address is a top-level statement that may have calls in it. -/
inductive IsTopLevel (tree : Node) : Address → Node → Prop
  | statement {step : Nat} {node : Node} :
      tree.children[step]? = some node → node.kind ≠ .importStatement →
      (node.kind = .exportStatement → node.child? .declaration = none) →
      IsTopLevel tree [step] node
  | exported {step inner : Nat} {statement node : Node} :
      tree.children[step]? = some statement → statement.kind = .exportStatement →
      statement.place? .declaration = some inner → statement.children[inner]? = some node →
      IsTopLevel tree [step, inner] node

/-- What a statement declares. -/
inductive DeclarationSort where
  | function | classDecl | variables
  /-- A type, in which no value is computed. -/
  | type
  | other
  deriving DecidableEq

def sortOf : Kind → DeclarationSort
  | .functionDeclaration => .function
  | .generatorFunctionDeclaration => .function
  | .classDeclaration => .classDecl
  | .abstractClassDeclaration => .classDecl
  | .lexicalDeclaration => .variables
  | .variableDeclaration => .variables
  | .interfaceDeclaration => .type
  | .typeAliasDeclaration => .type
  | _ => .other

/-- How many children of a class stand before what it extends. -/
def heritagePlace? (node : Node) : Option Nat :=
  node.children.findIdx? (·.kind == .classHeritage)

/-- The parts of a top-level statement in which calls are looked for. -/
inductive IsRegion (node : Node) : Address → Prop
  /-- A function, with or without a name. -/
  | function : sortOf node.kind = .function → IsRegion node []
  | namelessClass : sortOf node.kind = .classDecl → name? text node = none → IsRegion node []
  /-- What a class with a name extends. -/
  | heritage {name : String} {step : Nat} :
      sortOf node.kind = .classDecl → name? text node = some name →
      heritagePlace? node = some step → IsRegion node [step]
  /-- The members of a class with a name. -/
  | body {name : String} {step : Nat} :
      sortOf node.kind = .classDecl → name? text node = some name →
      node.place? .body = some step → IsRegion node [step]
  /-- The value of a variable. -/
  | initializer {step inner : Nat} {declarator : Node} :
      sortOf node.kind = .variables → node.children[step]? = some declarator →
      declarator.kind = .variableDeclarator → declarator.place? .value = some inner →
      IsRegion node [step, inner]
  /-- Any other statement. -/
  | other : sortOf node.kind = .other → IsRegion node []

/-- Calls at the address are listed. -/
def IsSearched (tree : Node) (place : Address) : Prop :=
  ∃ start node region, IsTopLevel tree start node ∧ IsRegion text node region ∧
    start ++ region <+: place

/-- What a class extends stands before its members, and these are in a body of their own. -/
def IsClass (node : Node) : Prop :=
  ∀ step body, node.place? .body = some step → node.children[step]? = some body →
    body.kind = .classBody ∧ ∀ before, heritagePlace? node = some before → before < step

/-- The tree of a whole source. -/
structure IsProgram (tree : Node) : Prop where
  kind : tree.kind = .program
  classes : ∀ {start node}, IsTopLevel tree start node → sortOf node.kind = .classDecl →
    IsClass node

namespace IsTopLevel

variable {tree node other : Node} {start start' place : Address}

theorem at?_eq (top : IsTopLevel tree start node) : tree.at? start = some node := by
  cases top with
  | statement listed => simp [Node.at?, listed]
  | exported listed _ _ declared => simp [Node.at?, listed, declared]

theorem not_exported {statement : Node} {inner : Nat}
    (bare : statement.kind = .exportStatement → statement.child? .declaration = none)
    (exports : statement.kind = .exportStatement)
    (declares : statement.place? .declaration = some inner)
    (listed : statement.children[inner]? = some node) : False := by
  have found := Node.child?_eq_some_iff.mpr ⟨inner, declares, listed⟩
  cases (bare exports).symm.trans found

theorem head?_eq (top : IsTopLevel tree start node) (within : start <+: place) :
    place.head? = start.head? := by
  obtain ⟨rest, rfl⟩ := within
  cases top <;> rfl

/-- A top-level statement is told by its place among the children of the tree. -/
theorem unique_of_head (top : IsTopLevel tree start node) (top' : IsTopLevel tree start' other)
    (same : start.head? = start'.head?) : start = start' ∧ node = other := by
  cases top with
  | statement listed _ bare =>
    cases top' with
    | statement listed' =>
      obtain rfl := Option.some.inj same
      exact ⟨rfl, Option.some.inj (listed.symm.trans listed')⟩
    | exported listed' exports declares declared =>
      obtain rfl := Option.some.inj same
      obtain rfl := Option.some.inj (listed.symm.trans listed')
      exact (not_exported bare exports declares declared).elim
  | exported listed exports declares declared =>
    cases top' with
    | statement listed' _ bare =>
      obtain rfl := Option.some.inj same
      obtain rfl := Option.some.inj (listed.symm.trans listed')
      exact (not_exported bare exports declares declared).elim
    | exported listed' _ declares' declared' =>
      obtain rfl := Option.some.inj same
      obtain rfl := Option.some.inj (listed.symm.trans listed')
      obtain rfl := Option.some.inj (declares.symm.trans declares')
      exact ⟨rfl, Option.some.inj (declared.symm.trans declared')⟩

/-- No two top-level statements lie in one another. -/
theorem unique (top : IsTopLevel tree start node) (top' : IsTopLevel tree start' other)
    (within : start <+: place) (within' : start' <+: place) : start = start' ∧ node = other :=
  top.unique_of_head top' ((top.head?_eq within).symm.trans (top'.head?_eq within'))

/-- Above a top-level statement there are only the whole tree and an export. -/
theorem eq_of_encloses {outer : Address} (top : IsTopLevel tree start node)
    (around : outer.Encloses start) :
    outer = [] ∨ ∃ step statement, outer = [step] ∧ tree.children[step]? = some statement ∧
      statement.kind = .exportStatement := by
  cases top with
  | @statement step =>
    have above := (Address.encloses_snoc outer [] step).mp around
    exact .inl (List.prefix_nil.mp above)
  | @exported step inner statement _ listed exports =>
    have above := (Address.encloses_snoc outer [step] inner).mp around
    have split : outer = [] ++ [step] ∨ outer <+: [] := List.prefix_concat_iff.mp above
    rcases split with same | nothing
    · exact .inr ⟨step, statement, same, listed, exports⟩
    · exact .inl (List.prefix_nil.mp nothing)

end IsTopLevel

end CodeAtlas.Outline

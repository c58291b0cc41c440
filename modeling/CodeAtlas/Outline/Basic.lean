namespace CodeAtlas

inductive SymbolKind where
  | function | classDecl | interface | typeAlias | variableDecl
  deriving Repr, DecidableEq

namespace SymbolKind

def name : SymbolKind → String
  | function => "function"
  | classDecl => "class"
  | interface => "interface"
  | typeAlias => "type"
  | variableDecl => "variable"

def ofName? : String → Option SymbolKind
  | "function" => some function
  | "class" => some classDecl
  | "interface" => some interface
  | "type" => some typeAlias
  | "variable" => some variableDecl
  | _ => none

end SymbolKind

/-- A declaration; its lines count from 1 and both ends belong to it. -/
structure Declared where
  name : String
  kind : SymbolKind
  firstLine : Nat
  lastLine : Nat
  exported : Bool
  deriving Repr, DecidableEq

/-- A name bound by an import. -/
structure ImportBinding where
  name : String
  module : String
  isDefault : Bool
  deriving Repr, DecidableEq

namespace ImportBinding

/-- Whether the import names a file relative to the one it stands in. -/
def isRelative (binding : ImportBinding) : Bool := binding.module.startsWith "."

end ImportBinding

/-- A call by name, and the function it stands in, if that has a name. -/
structure CallSite where
  caller : Option String
  callee : String
  line : Nat
  deriving Repr, DecidableEq

structure Outline where
  symbols : List Declared
  imports : List ImportBinding
  calls : List CallSite
  deriving Repr, DecidableEq

namespace Outline

def empty : Outline := ⟨[], [], []⟩

def append (first second : Outline) : Outline :=
  ⟨first.symbols ++ second.symbols, first.imports ++ second.imports, first.calls ++ second.calls⟩

instance : Append Outline := ⟨append⟩

def isEmpty (outline : Outline) : Bool :=
  outline.symbols.isEmpty && outline.imports.isEmpty && outline.calls.isEmpty

/-- An outline of calls alone. -/
def ofCalls (calls : List CallSite) : Outline := ⟨[], [], calls⟩

/-- All outlines in order, as one. -/
def join (outlines : List Outline) : Outline :=
  ⟨outlines.flatMap symbols, outlines.flatMap imports, outlines.flatMap calls⟩

end Outline

end CodeAtlas

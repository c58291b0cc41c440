import CodeAtlas.Cache.Basic
import CodeAtlas.Json.Printer

namespace CodeAtlas

abbrev QueryCache := Cache

namespace QueryCache

variable {α : Type}

/-- The key of a question: its type, a colon and its parameters. -/
def keyOf (type : String) (parameters : Json) : String := type ++ ":" ++ parameters.render

def find (cache : QueryCache α) (now : Nat) (type : String) (parameters : Json) :
    Option α × QueryCache α :=
  cache.get now (keyOf type parameters)

def insert (cache : QueryCache α) (now : Nat) (type : String) (parameters : Json) (answer : α) :
    QueryCache α :=
  cache.set now (keyOf type parameters) answer

/-- Drops the answers whose keys begin with a type and a colon; yields how many they were. -/
def removeType (cache : QueryCache α) (type : String) : Nat × QueryCache α :=
  cache.removeWhere fun key => key.startsWith (type ++ ":")

/-- A pattern for keys that begin with a type and a colon. -/
def typePattern (type : String) : String := "^" ++ Pattern.escapeText type ++ ":"

/-- Drops the answers whose keys match the pattern for a type; none if this is too large to be used. -/
def removeType? [PatternLimit] (cache : QueryCache α) (type : String) : Option (Nat × QueryCache α) :=
  cache.invalidate? (typePattern type)

end QueryCache

end CodeAtlas

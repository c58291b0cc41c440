namespace CodeAtlas.Script

inductive Dialect where
  | typescript
  /-- Types and markup in one file. -/
  | tsx
  | javascript
  deriving Repr, DecidableEq

namespace Dialect

def name : Dialect → String
  | typescript => "typescript"
  | tsx => "tsx"
  | javascript => "javascript"

/-- Whether declarations may state types. -/
def typed : Dialect → Bool
  | javascript => false
  | _ => true

/-- Whether an angle bracket may begin a markup element. -/
def markup : Dialect → Bool
  | typescript => false
  | _ => true

/-- The dialect of files with the extension, upper and lower case alike. -/
def ofExtension? (extension : String) : Option Dialect :=
  match extension.toLower with
  | "ts" | "mts" | "cts" => some typescript
  | "tsx" => some tsx
  | "js" | "jsx" | "mjs" | "cjs" => some javascript
  | _ => none

end Dialect

end CodeAtlas.Script

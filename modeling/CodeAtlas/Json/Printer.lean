import CodeAtlas.Decimal.Text
import CodeAtlas.Json.Basic

namespace CodeAtlas.Json

def hexDigit (n : Nat) : Char :=
  if n < 10 then Char.ofNat ('0'.toNat + n) else Char.ofNat ('a'.toNat + n - 10)

/-- How a character is written inside a string. -/
def escape (c : Char) : List Char :=
  if c == '\x22' then ['\\', '\x22']
  else if c == '\\' then ['\\', '\\']
  else if c == '\x08' then ['\\', 'b']
  else if c == '\x0c' then ['\\', 'f']
  else if c == '\n' then ['\\', 'n']
  else if c == '\r' then ['\\', 'r']
  else if c == '\t' then ['\\', 't']
  else if c.toNat < 0x20 then ['\\', 'u', '0', '0', hexDigit (c.toNat / 16), hexDigit (c.toNat % 16)]
  else [c]

/-- A string between quotes. -/
def quote (text : String) : String :=
  String.ofList ('\x22' :: text.toList.flatMap escape ++ ['\x22'])

def Number.render : Number → String
  | integer value => toString value
  | real bits => (Decimal.Style.double.write bits.toNat).getD "null"
  | single bits => (Decimal.Style.single.write bits.toNat).getD "null"

mutual

/-- The value without any blanks. -/
def render : Json → String
  | null => "null"
  | bool true => "true"
  | bool false => "false"
  | number value => value.render
  | string text => quote text
  | array [] => "[]"
  | array (item :: rest) => "[" ++ render item ++ renderItems rest ++ "]"
  | object [] => "\x7b\x7d"
  | object ((key, value) :: rest) =>
    "\x7b" ++ quote key ++ ":" ++ render value ++ renderMembers rest ++ "\x7d"

def renderItems : List Json → String
  | [] => ""
  | item :: rest => "," ++ render item ++ renderItems rest

def renderMembers : List (String × Json) → String
  | [] => ""
  | (key, value) :: rest => "," ++ quote key ++ ":" ++ render value ++ renderMembers rest

end

def lineBreak (depth : Nat) : String :=
  String.ofList ('\n' :: List.replicate (2 * depth) ' ')

mutual

/-- The value with every item and member on a line of its own, two blanks deeper than what it is
in. Empty arrays and objects take no line break. -/
def renderIndented (depth : Nat) : Json → String
  | array [] => "[]"
  | array (item :: rest) =>
    "[" ++ lineBreak (depth + 1) ++ renderIndented (depth + 1) item ++
      renderIndentedItems (depth + 1) rest ++ lineBreak depth ++ "]"
  | object [] => "\x7b\x7d"
  | object ((key, value) :: rest) =>
    "\x7b" ++ lineBreak (depth + 1) ++ quote key ++ ": " ++ renderIndented (depth + 1) value ++
      renderIndentedMembers (depth + 1) rest ++ lineBreak depth ++ "\x7d"
  | other => render other

def renderIndentedItems (depth : Nat) : List Json → String
  | [] => ""
  | item :: rest =>
    "," ++ lineBreak depth ++ renderIndented depth item ++ renderIndentedItems depth rest

def renderIndentedMembers (depth : Nat) : List (String × Json) → String
  | [] => ""
  | (key, value) :: rest =>
    "," ++ lineBreak depth ++ quote key ++ ": " ++ renderIndented depth value ++
      renderIndentedMembers depth rest

end

end CodeAtlas.Json

namespace CodeAtlas.Text

/-- A line from its characters, last first, without the carriage return it may end with. -/
def closeLine : List Char → String
  | '\r' :: line => String.ofList line.reverse
  | line => String.ofList line.reverse

/-- The lines of what remains, after `line`, the characters of the present one, last first. `done`
holds the lines before it, last first. -/
def linesFrom : List Char → List Char → List String → List String
  | [], [], done => done.reverse
  | [], line, done => (String.ofList line.reverse :: done).reverse
  | '\n' :: rest, line, done => linesFrom rest [] (closeLine line :: done)
  | c :: rest, line, done => linesFrom rest (c :: line) done

def lines (text : String) : List String := linesFrom text.toList [] []

/-- Lines one after the other, with line feeds between them. -/
def unlines (lines : List String) : String := "\n".intercalate lines

end CodeAtlas.Text

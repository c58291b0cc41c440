namespace CodeAtlas.Text

def isBlank (c : Char) : Bool :=
  let n := c.toNat
  (9 ≤ n && n ≤ 13) || n == 0x20 || n == 0x85 || n == 0xA0 || n == 0x1680 ||
    (0x2000 ≤ n && n ≤ 0x200A) || n == 0x2028 || n == 0x2029 || n == 0x202F || n == 0x205F ||
    n == 0x3000

/-- The text without the blanks at its front. -/
def trimFront (text : List Char) : List Char := text.dropWhile isBlank

/-- The text without the blanks at its end. -/
def trimBack (text : List Char) : List Char := (text.reverse.dropWhile isBlank).reverse

/-- The text without the blanks at its ends. -/
def trim (text : List Char) : List Char := trimBack (trimFront text)

/-- Whether a text has nothing but blanks. -/
def isBlankText (text : String) : Bool := text.toList.all isBlank

/-- The words of a text: its longest runs without blanks. -/
def words (text : List Char) : List (List Char) :=
  go text []
where
  close (word : List Char) (rest : List (List Char)) : List (List Char) :=
    if word.isEmpty then rest else word.reverse :: rest
  go : List Char → List Char → List (List Char)
    | [], word => close word []
    | c :: rest, word => if isBlank c then close word (go rest []) else go rest (c :: word)

end CodeAtlas.Text

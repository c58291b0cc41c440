import CodeAtlas.Pattern.CharSet
import CodeAtlas.Text.Blank

namespace CodeAtlas.CharSet

def ofCategories (p : String → Bool) : CharSet := ofRanges (Unicode.rangesOfCategories p)

def ofCategory (name : String) : CharSet := ofCategories (· == name)

/-- Letters in circles and squares, which count as letters although their category is another. -/
def circledLetters : CharSet :=
  ofRanges [(0x24B6, 0x24E9), (0x1F130, 0x1F149), (0x1F150, 0x1F169), (0x1F170, 0x1F189)]

def alphabetic : CharSet :=
  (ofCategories fun name => name.startsWith "L" || name == "Nl").union circledLetters

def digit : CharSet := ofCategory "Nd"

def blank : CharSet :=
  ofRanges [(9, 13), (0x20, 0x20), (0x85, 0x85), (0xA0, 0xA0), (0x1680, 0x1680), (0x2000, 0x200A),
    (0x2028, 0x2029), (0x202F, 0x202F), (0x205F, 0x205F), (0x3000, 0x3000)]

/-- The characters of words: letters, marks, digits, connectors and joiners. -/
def word : CharSet :=
  ((ofCategories fun name => name.startsWith "M" || name == "Nd" || name == "Pc").union alphabetic).union
    (ofRanges [(0x200C, 0x200D)])

def asciiDigit : CharSet := ofChars '0' '9'

def asciiBlank : CharSet := ofRanges [(9, 13), (0x20, 0x20)]

def asciiWord : CharSet :=
  ofRanges [(0x30, 0x39), (0x41, 0x5A), (0x5F, 0x5F), (0x61, 0x7A)]

/-- The classes that are written by name between brackets and colons. -/
def ofBracketName? : String → Option CharSet
  | "alnum" => some (ofRanges [(0x30, 0x39), (0x41, 0x5A), (0x61, 0x7A)])
  | "alpha" => some (ofRanges [(0x41, 0x5A), (0x61, 0x7A)])
  | "ascii" => some (ofRanges [(0, 0x7F)])
  | "blank" => some (ofRanges [(9, 9), (0x20, 0x20)])
  | "cntrl" => some (ofRanges [(0, 0x1F), (0x7F, 0x7F)])
  | "digit" => some asciiDigit
  | "graph" => some (ofRanges [(0x21, 0x7E)])
  | "lower" => some (ofRanges [(0x61, 0x7A)])
  | "print" => some (ofRanges [(0x20, 0x7E)])
  | "punct" => some (ofRanges [(0x21, 0x2F), (0x3A, 0x40), (0x5B, 0x60), (0x7B, 0x7E)])
  | "space" => some asciiBlank
  | "upper" => some (ofRanges [(0x41, 0x5A)])
  | "word" => some asciiWord
  | "xdigit" => some (ofRanges [(0x30, 0x39), (0x41, 0x46), (0x61, 0x66)])
  | _ => none

/-- The name of a property with only its small letters and digits. -/
def bareName (name : List Char) : String :=
  let bare := (name.filter fun c => !(c == ' ' || c == '_' || c == '-' || ('\t' ≤ c && c ≤ '\r'))).map
    (·.toLower)
  String.ofList (if bare.take 2 == ['i', 's'] && bare.drop 2 != ['c'] then bare.drop 2 else bare)

/-- The categories by their long names. -/
def categoryOfLongName : List (String × String) :=
  [("letter", "L"), ("casedletter", "LC"), ("uppercaseletter", "Lu"), ("lowercaseletter", "Ll"),
    ("titlecaseletter", "Lt"), ("modifierletter", "Lm"), ("otherletter", "Lo"), ("mark", "M"),
    ("combiningmark", "M"), ("nonspacingmark", "Mn"), ("spacingmark", "Mc"), ("enclosingmark", "Me"),
    ("number", "N"), ("decimalnumber", "Nd"), ("digit", "Nd"), ("letternumber", "Nl"),
    ("othernumber", "No"), ("punctuation", "P"), ("punct", "P"), ("connectorpunctuation", "Pc"),
    ("dashpunctuation", "Pd"), ("openpunctuation", "Ps"), ("closepunctuation", "Pe"),
    ("initialpunctuation", "Pi"), ("finalpunctuation", "Pf"), ("otherpunctuation", "Po"),
    ("symbol", "S"), ("mathsymbol", "Sm"), ("currencysymbol", "Sc"), ("modifiersymbol", "Sk"),
    ("othersymbol", "So"), ("separator", "Z"), ("spaceseparator", "Zs"), ("lineseparator", "Zl"),
    ("paragraphseparator", "Zp"), ("other", "C"), ("control", "Cc"), ("cntrl", "Cc"),
    ("format", "Cf"), ("privateuse", "Co"), ("unassigned", "Cn"), ("surrogate", "Cs")]

/-- The category or group of categories with a short name. -/
def ofShortName? (name : String) : Option CharSet :=
  let matching := Unicode.categoryNames.filter fun category => category.startsWith name
  if name == "LC" then some (ofCategories fun c => c == "Lu" || c == "Ll" || c == "Lt")
  else if name.isEmpty || matching.isEmpty then none
  else some (ofCategories matching.contains)

def capitalize (name : String) : String :=
  match name.toList with
  | [] => ""
  | first :: rest => String.ofList (first.toUpper :: rest)

def ofCategoryName? (bare : String) : Option CharSet :=
  match categoryOfLongName.lookup bare with
  | some short => ofShortName? short
  | none =>
    if bare == "lc" then ofShortName? "LC"
    else if bare == "any" then some (ofRanges [(0, top)])
    else if bare == "ascii" then some (ofRanges [(0, 0x7F)])
    else if bare == "assigned" then some (ofCategory "Cn").complement
    else ofShortName? (capitalize bare)

/-- The scripts that can be named. -/
def ofScriptName? : String → Option CharSet
  | "latin" | "latn" => some (ofRanges [(0x41, 0x5A), (0x61, 0x7A), (0xAA, 0xAA), (0xBA, 0xBA),
      (0xC0, 0xD6), (0xD8, 0xF6), (0xF8, 0x2B8), (0x2E0, 0x2E4), (0x1D00, 0x1D25),
      (0x1D2C, 0x1D5C), (0x1D62, 0x1D65), (0x1D6B, 0x1D77), (0x1D79, 0x1DBE), (0x1E00, 0x1EFF),
      (0x2071, 0x2071), (0x207F, 0x207F), (0x2090, 0x209C), (0x212A, 0x212B), (0x2132, 0x2132),
      (0x214E, 0x214E), (0x2160, 0x2188), (0x2C60, 0x2C7F), (0xA722, 0xA787), (0xA78B, 0xA7CA),
      (0xA7D0, 0xA7D1), (0xA7D3, 0xA7D3), (0xA7D5, 0xA7D9), (0xA7F2, 0xA7FF), (0xAB30, 0xAB5A),
      (0xAB5C, 0xAB64), (0xAB66, 0xAB69), (0xFB00, 0xFB06), (0xFF21, 0xFF3A), (0xFF41, 0xFF5A),
      (0x10780, 0x10785), (0x10787, 0x107B0), (0x107B2, 0x107BA), (0x1DF00, 0x1DF1E)])
  | "greek" | "grek" => some (ofRanges [(0x370, 0x373), (0x375, 0x377), (0x37A, 0x37D),
      (0x37F, 0x37F), (0x384, 0x384), (0x386, 0x386), (0x388, 0x38A), (0x38C, 0x38C),
      (0x38E, 0x3A1), (0x3A3, 0x3E1), (0x3F0, 0x3FF), (0x1D26, 0x1D2A), (0x1D5D, 0x1D61),
      (0x1D66, 0x1D6A), (0x1DBF, 0x1DBF), (0x1F00, 0x1F15), (0x1F18, 0x1F1D), (0x1F20, 0x1F45),
      (0x1F48, 0x1F4D), (0x1F50, 0x1F57), (0x1F59, 0x1F59), (0x1F5B, 0x1F5B), (0x1F5D, 0x1F5D),
      (0x1F5F, 0x1F7D), (0x1F80, 0x1FB4), (0x1FB6, 0x1FC4), (0x1FC6, 0x1FD3), (0x1FD6, 0x1FDB),
      (0x1FDD, 0x1FEF), (0x1FF2, 0x1FF4), (0x1FF6, 0x1FFE), (0x2126, 0x2126), (0xAB65, 0xAB65),
      (0x10140, 0x1018E), (0x101A0, 0x101A0), (0x1D200, 0x1D245)])
  | "cyrillic" | "cyrl" => some (ofRanges [(0x400, 0x484), (0x487, 0x52F), (0x1C80, 0x1C88),
      (0x1D2B, 0x1D2B), (0x1D78, 0x1D78), (0x2DE0, 0x2DFF), (0xA640, 0xA69F), (0xFE2E, 0xFE2F)])
  | "han" | "hani" => some (ofRanges [(0x2E80, 0x2E99), (0x2E9B, 0x2EF3), (0x2F00, 0x2FD5),
      (0x3005, 0x3005), (0x3007, 0x3007), (0x3021, 0x3029), (0x3038, 0x303B), (0x3400, 0x4DBF),
      (0x4E00, 0x9FFF), (0xF900, 0xFA6D), (0xFA70, 0xFAD9), (0x16FE2, 0x16FE3),
      (0x16FF0, 0x16FF1), (0x20000, 0x2A6DF), (0x2A700, 0x2B738), (0x2B740, 0x2B81D),
      (0x2B820, 0x2CEA1), (0x2CEB0, 0x2EBE0), (0x2F800, 0x2FA1D), (0x30000, 0x3134A)])
  | "hiragana" | "hira" => some (ofRanges [(0x3041, 0x3096), (0x309D, 0x309F),
      (0x1B001, 0x1B11F), (0x1B150, 0x1B152), (0x1F200, 0x1F200)])
  | "katakana" | "kana" => some (ofRanges [(0x30A1, 0x30FA), (0x30FD, 0x30FF), (0x31F0, 0x31FF),
      (0x32D0, 0x32FE), (0x3300, 0x3357), (0xFF66, 0xFF6F), (0xFF71, 0xFF9D), (0x1AFF0, 0x1AFF3),
      (0x1AFF5, 0x1AFFB), (0x1AFFD, 0x1AFFE), (0x1B000, 0x1B000), (0x1B164, 0x1B167)])
  | _ => none

/-- The properties that a character has or has not. -/
def ofBinaryName? : String → Option CharSet
  | "alphabetic" | "alpha" => some (alphabetic.union (ofCategory "Mc"))
  | "uppercase" | "upper" => some ((ofCategory "Lu").union (ofRanges [(0x2160, 0x216F),
      (0x24B6, 0x24CF), (0x1F130, 0x1F149), (0x1F150, 0x1F169), (0x1F170, 0x1F189)]))
  | "lowercase" | "lower" => some ((ofCategory "Ll").union (ofRanges [(0xAA, 0xAA), (0xBA, 0xBA),
      (0x2B0, 0x2B8), (0x2C0, 0x2C1), (0x2E0, 0x2E4), (0x345, 0x345), (0x37A, 0x37A),
      (0x1D2C, 0x1D6A), (0x1D78, 0x1D78), (0x1D9B, 0x1DBF), (0x2071, 0x2071), (0x207F, 0x207F),
      (0x2090, 0x209C), (0x2170, 0x217F), (0x24D0, 0x24E9), (0x2C7C, 0x2C7D), (0xA69C, 0xA69D),
      (0xA770, 0xA770), (0xA7F8, 0xA7F9), (0xAB5C, 0xAB5F)]))
  | "whitespace" | "wspace" | "space" => some blank
  | "asciihexdigit" | "ahex" => some (ofRanges [(0x30, 0x39), (0x41, 0x46), (0x61, 0x66)])
  | "joincontrol" | "joinc" => some (ofRanges [(0x200C, 0x200D)])
  | _ => none

/-- The class that a property stands for, written as a name or as a name and a value. -/
def ofProperty? (name : List Char) (value : Option (List Char)) : Option CharSet :=
  let bare := bareName name
  match value with
  | none => ofBinaryName? bare <|> ofCategoryName? bare <|> ofScriptName? bare
  | some value =>
    match bare with
    | "gc" | "generalcategory" => ofCategoryName? (bareName value)
    | "sc" | "script" | "scx" | "scriptextensions" => ofScriptName? (bareName value)
    | _ => none

end CodeAtlas.CharSet

import CodeAtlas.Decimal.Shortest

namespace CodeAtlas.Decimal

/-- How the digits of a number are laid out: positionally if the leading digit stands at a place
from `lowest` to `highest`, with an exponent otherwise. -/
structure Style where
  layout : Layout
  lowest : Int
  highest : Int

/-- Numbers of 32 bits stand positionally from a millionth to below ten trillion. -/
def Style.single : Style := ⟨.single, -6, 12⟩

/-- Numbers of 64 bits stand positionally from a hundred-thousandth to below ten quadrillion. -/
def Style.double : Style := ⟨.double, -5, 15⟩

/-- Digits with the point where the exponent puts it, and a zero on an empty side. -/
def Scaled.positional (s : Scaled) : String :=
  let digits := (toString s.coefficient).toList
  let whole := digits.length + s.exponent
  if 0 ≤ s.exponent then
    String.ofList (digits ++ List.replicate s.exponent.toNat '0' ++ ".0".toList)
  else if 0 < whole then
    String.ofList (digits.take whole.toNat ++ '.' :: digits.drop whole.toNat)
  else String.ofList ("0.".toList ++ List.replicate (-whole).toNat '0' ++ digits)

/-- The leading digit, a point before the others if there are any, and the power of ten. -/
def Scaled.scientific (s : Scaled) : String :=
  let digits := (toString s.coefficient).toList
  let place : Int := digits.length - 1 + s.exponent
  let head := match digits with
    | first :: second :: rest => first :: '.' :: second :: rest
    | short => short
  let power := if place < 0 then toString place else "+" ++ toString place
  String.ofList head ++ "e" ++ power

/-- The text of the number with the bits, none for infinity and what is no number. -/
def Style.write (style : Style) (bits : Nat) : Option String :=
  match style.layout.classify bits with
  | .notANumber => none
  | .infinite _ => none
  | .finite negative magnitude =>
    let s := magnitude.shortest
    let place : Int := (toString s.coefficient).length - 1 + s.exponent
    let text :=
      if style.lowest ≤ place ∧ place ≤ style.highest then s.positional else s.scientific
    some (if negative then "-" ++ text else text)

/-- The text of a number of 32 bits with `places` digits after the point. -/
def writeFixed (places : Nat) (bits : UInt32) : String :=
  match Layout.single.classify bits.toNat with
  | .notANumber => "NaN"
  | .infinite negative => if negative then "-inf" else "inf"
  | .finite negative magnitude =>
    let digits := toString (magnitude.fixed places).coefficient
    let padded := String.ofList (List.replicate (places + 1 - digits.length) '0') ++ digits
    let characters := padded.toList
    let whole := characters.length - places
    let text := String.ofList (characters.take whole) ++
      (if places = 0 then "" else String.ofList ('.' :: characters.drop whole))
    if negative then "-" ++ text else text

end CodeAtlas.Decimal

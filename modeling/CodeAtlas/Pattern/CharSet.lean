import CodeAtlas.Unicode.Category
import CodeAtlas.Unicode.Folding

namespace CodeAtlas

/-- The ranges are in order, have both ends, and neither meet nor touch. -/
structure CharSet where
  ranges : List (Nat × Nat)
  deriving Repr, DecidableEq

namespace CharSet

/-- The last code point. -/
def top : Nat := 0x10FFFF

def empty : CharSet := ⟨[]⟩

def hasCode (set : CharSet) (code : Nat) : Bool :=
  set.ranges.any fun (first, last) => first ≤ code && code ≤ last

def contains (set : CharSet) (c : Char) : Bool := set.hasCode c.toNat

/-- Adds a range to ranges that all start later or together with it. -/
def glue (range : Nat × Nat) : List (Nat × Nat) → List (Nat × Nat)
  | [] => [range]
  | next :: rest =>
    if next.1 ≤ range.2 + 1 then glue (range.1, max range.2 next.2) rest else range :: next :: rest

def ofRanges (ranges : List (Nat × Nat)) : CharSet :=
  let sorted := (ranges.filter fun range => range.1 ≤ range.2).mergeSort fun a b => a.1 ≤ b.1
  ⟨sorted.foldr glue []⟩

def ofChars (first last : Char) : CharSet := ofRanges [(first.toNat, last.toNat)]

def singleton (c : Char) : CharSet := ofChars c c

def union (a b : CharSet) : CharSet := ofRanges (a.ranges ++ b.ranges)

/-- What lies between ranges, from `next` on. -/
def gaps (next : Nat) : List (Nat × Nat) → List (Nat × Nat)
  | [] => if next ≤ top then [(next, top)] else []
  | (first, last) :: rest =>
    if next < first then (next, first - 1) :: gaps (last + 1) rest else gaps (last + 1) rest

def complement (set : CharSet) : CharSet := ⟨gaps 0 set.ranges⟩

def inter (a b : CharSet) : CharSet := (a.complement.union b.complement).complement

def diff (a b : CharSet) : CharSet := a.inter b.complement

def symmDiff (a b : CharSet) : CharSet := (a.diff b).union (b.diff a)

def isAscii (set : CharSet) : Bool := set.ranges.all fun range => range.2 < 0x80

/-- The set with all characters that differ from one in it by case only. -/
def foldCase (set : CharSet) : CharSet :=
  let folded := (Unicode.foldingPairs.filter fun (letter, fold) => set.hasCode letter || set.hasCode fold).map
    (·.2)
  let bases := folded.eraseDups
  let added := Unicode.foldingPairs.filter fun (_, fold) => bases.contains fold
  ofRanges (set.ranges ++ added.flatMap fun (letter, fold) => [(letter, letter), (fold, fold)])

/-- The set with all ASCII letters that differ from one in it by case only. -/
def foldAsciiCase (set : CharSet) : CharSet :=
  let upper := set.inter (ofChars 'A' 'Z')
  let lower := set.inter (ofChars 'a' 'z')
  ofRanges (set.ranges ++ upper.ranges.map (fun range => (range.1 + 32, range.2 + 32)) ++
    lower.ranges.map (fun range => (range.1 - 32, range.2 - 32)))

end CharSet

end CodeAtlas

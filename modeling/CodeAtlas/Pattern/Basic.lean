import CodeAtlas.Pattern.CharSet

namespace CodeAtlas

/-- What is asked of a place between two characters, by whether those are word characters. -/
inductive WordEdge where
  | boundary | inside | start | stop | startHalf | stopHalf
  deriving Repr, DecidableEq

def WordEdge.holds (before after : Bool) : WordEdge → Bool
  | boundary => before != after
  | inside => before == after
  | start => !before && after
  | stop => before && !after
  | startHalf => !before
  | stopHalf => !after

/-- What is asked of a place in a text. -/
inductive Anchor where
  | textStart
  | textEnd
  /-- Lines end at line feeds and, if `returns`, also at carriage returns, but not between a
  carriage return and a line feed. -/
  | lineStart (returns : Bool)
  | lineEnd (returns : Bool)
  | word (edge : WordEdge) (words : CharSet)
  deriving Repr, DecidableEq

namespace Anchor

/-- The character before a place. -/
def before? (text : Array Char) (place : Nat) : Option Char :=
  if place = 0 then none else text[place - 1]?

def holds (text : Array Char) (place : Nat) : Anchor → Bool
  | textStart => place == 0
  | textEnd => place == text.size
  | lineStart false => place == 0 || before? text place == some '\n'
  | lineStart true =>
    place == 0 || before? text place == some '\n' ||
      (before? text place == some '\r' && text[place]? != some '\n')
  | lineEnd false => place == text.size || text[place]? == some '\n'
  | lineEnd true =>
    place == text.size || text[place]? == some '\r' ||
      (text[place]? == some '\n' && before? text place != some '\r')
  | word edge words =>
    edge.holds ((before? text place).any words.contains) (text[place]?.any words.contains)

end Anchor

inductive Pattern where
  | empty
  | oneOf (set : CharSet)
  | anchor (anchor : Anchor)
  | seq (first second : Pattern)
  | either (first second : Pattern)
  /-- At least `least` times, and at most `most` times if that is given. -/
  | repeated (body : Pattern) (least : Nat) (most : Option Nat)
  deriving Repr, DecidableEq

namespace Pattern

/-- Places in order and without repetition. -/
abbrev Places := List Nat

/-- The places that are in one of two lists; the number bounds their lengths together. -/
def Places.unionUpTo : Nat → Places → Places → Places
  | 0, _, _ => []
  | _, [], ys => ys
  | _, xs, [] => xs
  | n + 1, x :: xs, y :: ys =>
    if x < y then x :: unionUpTo n xs (y :: ys)
    else if y < x then y :: unionUpTo n (x :: xs) ys
    else x :: unionUpTo n xs ys

def Places.union (xs ys : Places) : Places := Places.unionUpTo (xs.length + ys.length) xs ys

/-- The places of the first list that are not in the second. -/
def Places.withoutUpTo : Nat → Places → Places → Places
  | 0, _, _ => []
  | _, [], _ => []
  | _, xs, [] => xs
  | n + 1, x :: xs, y :: ys =>
    if x < y then x :: withoutUpTo n xs (y :: ys)
    else if y < x then withoutUpTo n (x :: xs) ys
    else withoutUpTo n xs ys

def Places.without (xs ys : Places) : Places := Places.withoutUpTo (xs.length + ys.length) xs ys

/-- The places reached from `seen` in at most so many steps, if those reached last are `fresh`. -/
def spread (step : Places → Places) : Nat → Places → Places → Places
  | 0, seen, _ => seen
  | rounds + 1, seen, fresh =>
    let next := Places.without (step fresh) seen
    if next.isEmpty then seen else spread step rounds (Places.union seen next) next

/-- The places a pattern leads to. More repetitions than the text has places change nothing. -/
def reach (text : Array Char) : Pattern → Places → Places
  | empty, places => places
  | oneOf set, places =>
    (places.filter fun place => text[place]?.any set.contains).map (· + 1)
  | anchor a, places => places.filter fun place => a.holds text place
  | seq first second, places => second.reach text (first.reach text places)
  | either first second, places => Places.union (first.reach text places) (second.reach text places)
  | repeated body least most, places =>
    let enough := text.size + 1
    let start := Nat.repeat (body.reach text) (min least enough) places
    let rounds := match most with
      | none => enough
      | some most => min (most - least) enough
    spread (body.reach text) rounds start start

/-- Whether a pattern occurs in a text. -/
def occursIn (pattern : Pattern) (text : String) : Bool :=
  let characters := text.toList.toArray
  !(pattern.reach characters (List.range (characters.size + 1))).isEmpty

end Pattern

/-- Which patterns are small enough for the library that looks for them. How it measures them is its own
affair. -/
class PatternLimit where
  accepts : Pattern → Bool

namespace Pattern

/-- How much there is of a set of characters in a machine that searches for them, in bytes. One character
takes up one state for each byte of it. -/
def setWeight (set : CharSet) : Nat :=
  match set.ranges with
  | [(first, last)] => if first = last then 32 * (Char.ofNat first).utf8Size else 59
  | ranges => 32 + 27 * ranges.length

/-- A weight to which that of a pattern with its repetitions written out is added. -/
def addWeight : Pattern → Nat → Nat
  | empty, sum => sum + 32
  | oneOf set, sum => sum + setWeight set
  | anchor _, sum => sum + 32
  | seq first second, sum => second.addWeight (first.addWeight sum)
  | either first second, sum => second.addWeight (first.addWeight (sum + 32))
  | repeated body least none, sum => sum + 64 + max 1 least * body.addWeight 0
  | repeated body least (some most), sum =>
    sum + 64 + most * body.addWeight 0 + 32 * (most - least)

end Pattern

/-- An estimate to run programs with: of ten mebibytes, some are for any pattern. What is proved is so for
every other limit too. -/
instance : PatternLimit where
  accepts pattern := pattern.addWeight 128 ≤ 10 * 1048576

end CodeAtlas

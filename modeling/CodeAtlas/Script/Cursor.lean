import CodeAtlas.Script.Tree

namespace CodeAtlas.Script

/-- What is left of a source text, and where that begins. -/
structure Cursor where
  rest : List Char
  here : Position

/-- Reading stopped at `offset`, in the statement that starts in line `row` if that is known. -/
structure Failure where
  offset : Nat
  row : Option Nat

namespace Failure

/-- The failure that got further, the first of two that got equally far. -/
def further (first second : Failure) : Failure :=
  if first.offset < second.offset then second else first

/-- Blames the statement that starts in line `row`, unless one inside it is blamed already. -/
def within (failure : Failure) (row : Nat) : Failure :=
  { failure with row := failure.row.or (some row) }

end Failure

abbrev Reader := StateT Cursor (Except Failure)

namespace Position

/-- The place after one more character. -/
def next (here : Position) (c : Char) : Position :=
  ⟨here.offset + 1, if c = '\n' then here.row + 1 else here.row⟩

end Position

namespace Cursor

def ofList (source : List Char) : Cursor := ⟨source, ⟨0, 0⟩⟩

/-- Leaves out the first `n` characters, or all if there are fewer. -/
def drop : Nat → Cursor → Cursor
  | 0, cursor => cursor
  | _ + 1, ⟨[], here⟩ => ⟨[], here⟩
  | n + 1, ⟨c :: rest, here⟩ => drop n ⟨rest, here.next c⟩

/-- Leaves out the longest run of characters that satisfy `p`. -/
def dropWhile (p : Char → Bool) (cursor : Cursor) : Cursor :=
  go cursor.rest cursor.here
where
  go : List Char → Position → Cursor
    | [], here => ⟨[], here⟩
    | c :: rest, here => if p c then go rest (here.next c) else ⟨c :: rest, here⟩

end Cursor

namespace Reader

def fail {α : Type} : Reader α := fun cursor => .error ⟨cursor.here.offset, none⟩

def here : Reader Position := do return (← get).here

/-- Tries `first`; if it fails, reads with `second` from the same place. -/
def orElse {α : Type} (first second : Reader α) : Reader α := fun cursor =>
  match first cursor with
  | .ok result => .ok result
  | .error failure =>
    match second cursor with
    | .ok result => .ok result
    | .error other => .error (failure.further other)

/-- Reads with `reader` if it succeeds, and nothing otherwise. -/
def attempt {α : Type} (reader : Reader α) : Reader (Option α) :=
  orElse (some <$> reader) (pure none)

/-- Whether `reader` would succeed here. Nothing is taken. -/
def ahead {α : Type} (reader : Reader α) : Reader Bool := fun cursor =>
  match reader cursor with
  | .ok _ => .ok (true, cursor)
  | .error _ => .ok (false, cursor)

/-- Reads with `reader` and blames the statement that starts here for a failure. -/
def blame {α : Type} (reader : Reader α) : Reader α := fun cursor =>
  match reader cursor with
  | .ok result => .ok result
  | .error failure => .error (failure.within cursor.here.row)

/-- Repeats `step` while it yields something, at most `bound` times. -/
def repeated {α : Type} (step : Reader (Option α)) (bound : Nat) : Reader (List α) :=
  go bound []
where
  go : Nat → List α → Reader (List α)
    | 0, found => pure found.reverse
    | bound + 1, found => do
      match ← step with
      | none => return found.reverse
      | some item => go bound (item :: found)

/-- Applies `step` to its own results while it yields one, at most `bound` times. -/
def iterated {α : Type} (step : α → Reader (Option α)) : Nat → α → Reader α
  | 0, value => pure value
  | bound + 1, value => do
    match ← step value with
    | none => return value
    | some value => iterated step bound value

end Reader

end CodeAtlas.Script

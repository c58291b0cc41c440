import CodeAtlas.Proofs.Json.Spelling
import CodeAtlas.Proofs.Json.Written

namespace CodeAtlas.Json

/-- A place in a text, so many arrays and objects deep: between the strings, in one, or in one after a
backslash. -/
inductive Place where
  | outside (depth : Nat)
  | inside (depth : Nat)
  | escaped (depth : Nat)

namespace Place

/-- The place after a character. Outside of strings there is no backslash, no bracket is closed that
was not opened, and a colon stands between brackets only. -/
def step : Place → Char → Option Place
  | outside depth, c =>
    if c == '\x22' then some (inside depth)
    else if c == '\\' then none
    else if c == '[' || c == '{' then some (outside (depth + 1))
    else if c == ']' || c == '}' then
      match depth with
      | 0 => none
      | depth + 1 => some (outside depth)
    else if c == ':' && depth == 0 then none
    else some (outside depth)
  | inside depth, c =>
    if c == '\x22' then some (outside depth)
    else if c == '\\' then some (escaped depth)
    else some (inside depth)
  | escaped depth, _ => some (inside depth)

/-- The place after a text. -/
def scan (place : Place) (text : List Char) : Option Place := text.foldlM step place

variable {place other after after' : Place} {depth : Nat} {text : List Char} {c : Char}

@[simp] theorem scan_nil (place : Place) : place.scan [] = some place := rfl

theorem scan_cons (place : Place) (c : Char) (text : List Char) :
    place.scan (c :: text) = (place.step c).bind (·.scan text) := List.foldlM_cons

theorem scan_append (place : Place) (front back : List Char) :
    place.scan (front ++ back) = (place.scan front).bind (·.scan back) := List.foldlM_append

/-- One place is between the strings and the other one in a string. -/
inductive Opposed : Place → Place → Prop
  | left (depth depth' : Nat) : Opposed (outside depth) (inside depth')
  | right (depth depth' : Nat) : Opposed (inside depth) (outside depth')

theorem Opposed.symm (opposed : Opposed place other) : Opposed other place := by
  cases opposed with
  | left depth depth' => exact .right depth' depth
  | right depth depth' => exact .left depth' depth

theorem Opposed.step_outside {depth depth' : Nat} (first : (outside depth).step c = some after)
    (second : (inside depth').step c = some after') : Opposed after after' := by
  by_cases quote : c = '\x22'
  · subst quote
    obtain rfl := Option.some.inj first
    obtain rfl := Option.some.inj second
    exact .right depth depth'
  by_cases backslash : c = '\\'
  · subst backslash
    cases first
  have stays : (inside depth').step c = some (inside depth') := by simp [Place.step, quote, backslash]
  obtain rfl := Option.some.inj (stays.symm.trans second)
  have still : ∃ deep, after = outside deep := by
    simp only [Place.step] at first
    grind
  obtain ⟨deep, rfl⟩ := still
  exact .left deep depth'

/-- A quote turns both round, and a backslash stands at one of the two places only. -/
theorem Opposed.step (opposed : Opposed place other) (first : place.step c = some after)
    (second : other.step c = some after') : Opposed after after' := by
  cases opposed with
  | left => exact step_outside first second
  | right => exact (step_outside second first).symm

theorem Opposed.scan (opposed : Opposed place other) (first : place.scan text = some after)
    (second : other.scan text = some after') : Opposed after after' := by
  induction text generalizing place other with
  | nil =>
    obtain rfl := Option.some.inj first
    obtain rfl := Option.some.inj second
    exact opposed
  | cons c text ih =>
    rw [scan_cons] at first second
    obtain ⟨next, here, first⟩ := Option.bind_eq_some_iff.mp first
    obtain ⟨next', here', second⟩ := Option.bind_eq_some_iff.mp second
    exact ih (opposed.step here here') first second

/-- Where a text can be read both between strings and in one, it does not end at the same kind of
place. -/
theorem not_scan_inside (depth' : Nat) (first : (outside depth).scan text = some (outside depth)) :
    (inside depth').scan text ≠ some (outside depth) := by
  intro second
  cases (Opposed.left depth depth').scan first second

end Place

open Place

variable {depth : Nat} {text : List Char}

theorem step_numeric {c : Char} (numeric : Decimal.IsNumeric c) :
    (outside depth).step c = some (outside depth) := by
  rcases numeric with digit | rfl | rfl | rfl | rfl
  · have other : ∀ special : Char, special.isDigit = false → c ≠ special := by
      rintro special plain rfl
      rw [plain] at digit
      cases digit
    simp [Place.step, other]
  all_goals rfl

theorem scan_numeric (numeric : ∀ c ∈ text, Decimal.IsNumeric c) :
    (outside depth).scan text = some (outside depth) := by
  induction text with
  | nil => rfl
  | cons c text ih =>
    obtain ⟨first, rest⟩ := List.forall_mem_cons.mp numeric
    rw [scan_cons, step_numeric first]
    exact ih rest

theorem scan_number (number : Number) :
    (outside depth).scan number.render.toList = some (outside depth) := by
  have written {style : Decimal.Style} {bits : Nat} :
      (outside depth).scan ((style.write bits).getD "null").toList = some (outside depth) := by
    cases found : style.write bits with
    | none => rfl
    | some text => exact scan_numeric (Decimal.write_numeric found).2
  cases number with
  | integer value => exact scan_numeric (Decimal.numeric_toString value)
  | real bits => exact written
  | single bits => exact written

theorem hexDigit_plain {n : Nat} (small : n < 16) : hexDigit n ≠ '\x22' ∧ hexDigit n ≠ '\\' := by
  have all : ∀ n < 16, hexDigit n ≠ '\x22' ∧ hexDigit n ≠ '\\' := by decide
  exact all n small

/-- What is written for a character does not end the string. -/
theorem scan_escape (c : Char) : (inside depth).scan (escape c) = some (inside depth) := by
  unfold escape
  split_ifs with quote backslash backspace feed line carriage tab control
  · rfl
  · rfl
  · rfl
  · rfl
  · rfl
  · rfl
  · rfl
  · obtain ⟨high, high'⟩ := hexDigit_plain (show c.toNat / 16 < 16 by omega)
    obtain ⟨low, low'⟩ := hexDigit_plain (show c.toNat % 16 < 16 by omega)
    simp [scan_cons, Place.step, high, high', low, low']
  · simp only [beq_iff_eq] at quote backslash
    simp [scan_cons, Place.step, quote, backslash]

theorem scan_quote (text : String) : (outside depth).scan (quote text).toList = some (outside depth) := by
  have characters (text : List Char) :
      (inside depth).scan (text.flatMap escape) = some (inside depth) := by
    induction text with
    | nil => rfl
    | cons c text ih =>
      rw [List.flatMap_cons, scan_append, scan_escape]
      exact ih
  simp [quote, scan_cons, scan_append, Place.step, characters]

mutual

/-- The text of a value leads back to the place between strings that it stands at. -/
theorem scan_render (depth : Nat) (json : Json) :
    (outside depth).scan json.render.toList = some (outside depth) := by
  match json with
  | null => rfl
  | bool true => rfl
  | bool false => rfl
  | number value => exact scan_number value
  | string text => exact scan_quote text
  | array [] => rfl
  | array (item :: items) =>
    simp [render_array_cons, scan_cons, scan_append, Place.step, scan_render (depth + 1) item,
      scan_renderItems (depth + 1) items]
  | object [] => rfl
  | object ((key, value) :: members) =>
    simp [render_object_cons, scan_cons, scan_append, Place.step, scan_quote key,
      scan_render (depth + 1) value, scan_renderMembers depth members]

theorem scan_renderItems (depth : Nat) (items : List Json) :
    (outside depth).scan (renderItems items).toList = some (outside depth) := by
  match items with
  | [] => rfl
  | item :: items =>
    simp [renderItems_cons, scan_cons, scan_append, Place.step, scan_render depth item,
      scan_renderItems depth items]

theorem scan_renderMembers (depth : Nat) (members : List (String × Json)) :
    (outside (depth + 1)).scan (renderMembers members).toList = some (outside (depth + 1)) := by
  match members with
  | [] => rfl
  | (key, value) :: members =>
    simp [renderMembers_cons, scan_cons, scan_append, Place.step, scan_quote key,
      scan_render (depth + 1) value, scan_renderMembers depth members]

end

/-- What follows a colon in the text of a value is not the text of a value. -/
theorem render_ne_append_colon (json other : Json) (front : List Char) :
    json.render.toList ≠ front ++ ':' :: other.render.toList := by
  intro same
  have whole := scan_render 0 json
  rw [same, scan_append] at whole
  obtain ⟨place, _, rest⟩ := Option.bind_eq_some_iff.mp whole
  rw [scan_cons] at rest
  obtain ⟨next, colon, rest⟩ := Option.bind_eq_some_iff.mp rest
  have alone := scan_render 0 other
  cases place with
  | outside depth =>
    cases depth with
    | zero => cases colon
    | succ depth =>
      -- What was opened before the colon is still open after a whole value.
      obtain rfl := Option.some.inj colon
      rw [scan_render] at rest
      cases rest
  | inside depth =>
    obtain rfl := Option.some.inj colon
    exact not_scan_inside depth alone rest
  | escaped depth =>
    obtain rfl := Option.some.inj colon
    exact not_scan_inside depth alone rest

end CodeAtlas.Json

import CodeAtlas.Proofs.Json.Quoted

namespace CodeAtlas.Json

open Document

/-- The text is at its end or goes on with what may stand after a value inside another one. -/
def Ends (rest : List Char) : Prop := ∀ c ∈ rest.head?, c = ',' ∨ c = ']' ∨ c = '}'

/-- The number is written as the literal, which shows where it ends. -/
structure Number.Reads (number : Number) (literal : Literal) : Prop where
  head : ∃ c tail, number.render.toList = c :: tail ∧ (c = '-' ∨ c.isDigit = true)
  number? : ∀ rest, Ends rest →
    Document.number? (number.render.toList ++ rest) = some (literal, rest)

mutual

/-- The document has the members of the value in the same order and repeats what it repeats. -/
inductive Spells : Json → Document → Prop
  | null : Spells .null .null
  | bool (value : Bool) : Spells (.bool value) (.bool value)
  | number {number : Number} {literal : Literal} (reads : number.Reads literal) :
      Spells (.number number) (.number literal)
  | string (text : String) : Spells (.string text) (.string (some text))
  | array {items : List Json} {documents : List Document} (spells : SpellsItems items documents) :
      Spells (.array items) (.array documents)
  | object {members : List (String × Json)} {documents : List (Option String × Document)}
      (spells : SpellsMembers members documents) : Spells (.object members) (.object documents)

inductive SpellsItems : List Json → List Document → Prop
  | nil : SpellsItems [] []
  | cons {item : Json} {items : List Json} {document : Document} {documents : List Document}
      (head : Spells item document) (tail : SpellsItems items documents) :
      SpellsItems (item :: items) (document :: documents)

inductive SpellsMembers : List (String × Json) → List (Option String × Document) → Prop
  | nil : SpellsMembers [] []
  | cons (key : String) {value : Json} {members : List (String × Json)} {document : Document}
      {documents : List (Option String × Document)} (head : Spells value document)
      (tail : SpellsMembers members documents) :
      SpellsMembers ((key, value) :: members) ((some key, document) :: documents)

end

theorem SpellsItems.map {α : Type} {encode : α → Json} {document : α → Document}
    (spells : ∀ x, Spells (encode x) (document x)) (xs : List α) :
    SpellsItems (xs.map encode) (xs.map document) := by
  induction xs with
  | nil => exact .nil
  | cons x xs ih => exact .cons (spells x) ih

theorem skipBlanks_cons {c : Char} (visible : isBlank c = false) (rest : List Char) :
    skipBlanks (c :: rest) = c :: rest := by
  simp [skipBlanks, visible]

theorem afterWord?_append (word : String) (rest : List Char) :
    afterWord? word (word.toList ++ rest) = some rest := by
  have started : word.toList.isPrefixOf (word.toList ++ rest) = true := by simp
  rw [afterWord?, if_pos started, ← String.length_toList, List.drop_left]

theorem value?_null (fuel : Nat) (rest : List Char) :
    value? (fuel + 1) ((render null).toList ++ rest) = some (.null, rest) := by
  have word : afterWord? "null" ('n' :: 'u' :: 'l' :: 'l' :: rest) = some rest :=
    afterWord?_append "null" rest
  simp [render, value?, skipBlanks_cons, isBlank, word]

theorem value?_bool (value : Bool) (fuel : Nat) (rest : List Char) :
    value? (fuel + 1) ((render (bool value)).toList ++ rest) = some (.bool value, rest) := by
  cases value with
  | true =>
    have word : afterWord? "true" ('t' :: 'r' :: 'u' :: 'e' :: rest) = some rest :=
      afterWord?_append "true" rest
    simp [render, value?, skipBlanks_cons, isBlank, word]
  | false =>
    have word : afterWord? "false" ('f' :: 'a' :: 'l' :: 's' :: 'e' :: rest) = some rest :=
      afterWord?_append "false" rest
    simp [render, value?, skipBlanks_cons, isBlank, word]

theorem quote_append (text : String) (rest : List Char) :
    (quote text).toList ++ rest = '\x22' :: (text.toList.flatMap escape ++ '\x22' :: rest) := by
  simp [quote]

theorem stringRest_quoted (text : String) (rest : List Char) :
    stringRest (text.toList.flatMap escape ++ '\x22' :: rest) (some []) =
      some (some text, rest) := by
  rw [stringRest_flatMap_escape]
  simp

theorem value?_string (text : String) (fuel : Nat) (rest : List Char) :
    value? (fuel + 1) ((render (string text)).toList ++ rest) =
      some (.string (some text), rest) := by
  rw [render, quote_append, value?, skipBlanks_cons (by decide)]
  simp [stringRest_quoted]

/-- Only numbers begin with such a character. -/
theorem Number.Reads.begins {number : Number} {literal : Literal} (reads : number.Reads literal) :
    ∃ c tail, number.render.toList = c :: tail ∧
      ∀ other : Char, other ≠ '-' → other.isDigit = false → c ≠ other := by
  obtain ⟨c, tail, text, head⟩ := reads.head
  refine ⟨c, tail, text, ?_⟩
  rintro other sign digit rfl
  rcases head with rfl | isDigit
  · exact sign rfl
  · rw [digit] at isDigit
    cases isDigit

theorem value?_number {n : Number} {literal : Literal} (reads : n.Reads literal) (fuel : Nat)
    {rest : List Char} (ends : Ends rest) :
    value? (fuel + 1) ((render (number n)).toList ++ rest) = some (.number literal, rest) := by
  obtain ⟨c, tail, text, differs⟩ := reads.begins
  have read := reads.number? rest ends
  have visible : isBlank c = false := by simp [isBlank, differs]
  rw [text, List.cons_append] at read
  rw [render, text, List.cons_append, value?, skipBlanks_cons visible]
  simp [differs, read]

theorem render_array_cons (item : Json) (items : List Json) :
    (render (array (item :: items))).toList =
      '[' :: (item.render.toList ++ ((renderItems items).toList ++ [']'])) := by
  simp [render]

theorem renderItems_cons (item : Json) (items : List Json) :
    (renderItems (item :: items)).toList =
      ',' :: (item.render.toList ++ (renderItems items).toList) := by
  simp [renderItems]

theorem render_object_cons (key : String) (value : Json) (members : List (String × Json)) :
    (render (object ((key, value) :: members))).toList =
      '{' :: ((quote key).toList ++
        ':' :: (value.render.toList ++ ((renderMembers members).toList ++ ['}']))) := by
  simp [render]

theorem renderMembers_cons (key : String) (value : Json) (members : List (String × Json)) :
    (renderMembers ((key, value) :: members)).toList =
      ',' :: ((quote key).toList ++
        ':' :: (value.render.toList ++ (renderMembers members).toList)) := by
  simp [renderMembers]

theorem ends_renderItems (items : List Json) (rest : List Char) :
    Ends ((renderItems items).toList ++ ']' :: rest) := by
  cases items <;> simp [Ends, renderItems]

theorem ends_renderMembers (members : List (String × Json)) (rest : List Char) :
    Ends ((renderMembers members).toList ++ '}' :: rest) := by
  cases members <;> simp [Ends, renderMembers]

/-- No value begins with a blank or with the bracket that closes an array. -/
theorem Spells.begins {json : Json} {document : Document} (spells : Spells json document) :
    ∃ c tail, json.render.toList = c :: tail ∧ isBlank c = false ∧ c ≠ ']' := by
  cases spells with
  | null => exact ⟨'n', _, rfl, by decide, by decide⟩
  | bool value => cases value <;> exact ⟨_, _, rfl, by decide, by decide⟩
  | number reads =>
    obtain ⟨c, tail, text, differs⟩ := reads.begins
    exact ⟨c, tail, text, by simp [isBlank, differs], by simp [differs]⟩
  | string text =>
    have quoted := quote_append text []
    rw [List.append_nil] at quoted
    exact ⟨'\x22', _, quoted, by decide, by decide⟩
  | array spells =>
    cases spells with
    | nil => exact ⟨'[', _, rfl, by decide, by decide⟩
    | cons => exact ⟨'[', _, render_array_cons .., by decide, by decide⟩
  | object spells =>
    cases spells with
    | nil => exact ⟨'{', _, rfl, by decide, by decide⟩
    | cons => exact ⟨'{', _, render_object_cons .., by decide, by decide⟩

/-- So much fuel is enough for values whose texts are shorter. -/
def ReadsValues (fuel : Nat) : Prop :=
  ∀ {json : Json} {document : Document}, Spells json document →
    json.render.toList.length < fuel → ∀ rest, Ends rest →
    value? fuel (json.render.toList ++ rest) = some (document, rest)

def ReadsItems (fuel : Nat) : Prop :=
  ∀ {item : Json} {items : List Json} {document : Document} {documents : List Document},
    Spells item document → SpellsItems items documents →
    item.render.toList.length + (renderItems items).toList.length + 1 < fuel →
    ∀ rest read,
      items? fuel (item.render.toList ++ ((renderItems items).toList ++ ']' :: rest)) read =
        some (.array (read.reverse ++ document :: documents), rest)

def ReadsMembers (fuel : Nat) : Prop :=
  ∀ (key : String) {value : Json} {members : List (String × Json)} {document : Document}
    {documents : List (Option String × Document)},
    Spells value document → SpellsMembers members documents →
    value.render.toList.length + (renderMembers members).toList.length + 1 < fuel →
    ∀ rest read,
      members? fuel ((quote key).toList ++
          ':' :: (value.render.toList ++ ((renderMembers members).toList ++ '}' :: rest))) read =
        some (.object (read.reverse ++ (some key, document) :: documents), rest)

variable {fuel : Nat}

theorem ReadsItems.succ (values : ReadsValues fuel) (itemsRead : ReadsItems fuel) :
    ReadsItems (fuel + 1) := by
  intro item items document documents head tail enough rest read
  have first := values head (by omega) _ (ends_renderItems items rest)
  rw [items?, first]
  cases tail with
  | nil => simp [renderItems, skipBlanks_cons, isBlank]
  | cons head tail =>
    rw [renderItems_cons, List.length_cons, List.length_append] at enough
    have others := itemsRead head tail (by omega) rest (document :: read)
    simpa [renderItems_cons, skipBlanks_cons, isBlank] using others

theorem ReadsMembers.succ (values : ReadsValues fuel) (membersRead : ReadsMembers fuel) :
    ReadsMembers (fuel + 1) := by
  intro key value members document documents head tail enough rest read
  have first := values head (by omega) _ (ends_renderMembers members rest)
  rw [members?, quote_append, skipBlanks_cons (by decide)]
  simp only [stringRest_quoted]
  rw [skipBlanks_cons (by decide)]
  simp only [first]
  cases tail with
  | nil => simp [renderMembers, skipBlanks_cons, isBlank]
  | cons next head tail =>
    rw [renderMembers_cons, List.length_cons, List.length_append, List.length_cons,
      List.length_append] at enough
    have others := membersRead next head tail (by omega) rest
      ((some key, document) :: read)
    simpa [renderMembers_cons, skipBlanks_cons, isBlank] using others

theorem ReadsValues.succ (itemsRead : ReadsItems fuel) (membersRead : ReadsMembers fuel) :
    ReadsValues (fuel + 1) := by
  intro json document spells enough rest ends
  cases spells with
  | null => exact value?_null fuel rest
  | bool value => exact value?_bool value fuel rest
  | number reads => exact value?_number reads fuel ends
  | string text => exact value?_string text fuel rest
  | array spells =>
    cases spells with
    | nil => simp [render, value?, skipBlanks_cons, isBlank]
    | cons head tail =>
      rw [render_array_cons] at enough ⊢
      simp only [List.length_cons, List.length_append, List.length_nil] at enough
      have inside := itemsRead head tail (by omega) rest []
      obtain ⟨c, text, begins, visible, opens⟩ := head.begins
      rw [begins] at inside
      rw [begins, List.cons_append, value?, skipBlanks_cons (by decide)]
      simpa [skipBlanks_cons visible, opens] using inside
  | object spells =>
    cases spells with
    | nil => simp [render, value?, skipBlanks_cons, isBlank]
    | cons key head tail =>
      rw [render_object_cons] at enough ⊢
      simp only [List.length_cons, List.length_append, List.length_nil] at enough
      have inside := membersRead key head tail (by omega) rest []
      rw [quote_append] at inside
      rw [quote_append, List.cons_append, value?, skipBlanks_cons (by decide)]
      simpa [skipBlanks_cons, isBlank] using inside

theorem reads_all (fuel : Nat) : ReadsValues fuel ∧ ReadsItems fuel ∧ ReadsMembers fuel := by
  -- Each of the three hands the others one unit of fuel less, so that they are taken together.
  induction fuel with
  | zero =>
    refine ⟨?_, ?_, ?_⟩
    · intro _ _ _ short
      exact absurd short (Nat.not_lt_zero _)
    · intro _ _ _ _ _ _ short
      exact absurd short (Nat.not_lt_zero _)
    · intro _ _ _ _ _ _ _ short
      exact absurd short (Nat.not_lt_zero _)
  | succ fuel ih =>
    obtain ⟨values, items, members⟩ := ih
    exact ⟨ReadsValues.succ items members, ReadsItems.succ values items,
      ReadsMembers.succ values members⟩

/-- A text that is written is read back as what it spells. -/
theorem Spells.parse? {json : Json} {document : Document} (spells : Spells json document) :
    Document.parse? json.render = some document := by
  obtain ⟨values, _⟩ := reads_all (json.render.toList.length + 1)
  have read := values spells (Nat.lt_succ_self _) [] (by simp [Ends])
  rw [List.append_nil] at read
  simp [Document.parse?, read, skipBlanks]

end CodeAtlas.Json

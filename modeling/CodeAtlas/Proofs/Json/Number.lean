import CodeAtlas.Json.Decode
import CodeAtlas.Proofs.Json.Spelling
import Mathlib.Data.List.Basic

namespace CodeAtlas.Json

namespace Document

variable {text rest after : List Char}

/-- The text is at its end or goes on with nothing that could be part of a number. -/
def Stops (rest : List Char) : Prop :=
  ∀ c ∈ rest.head?, c.isDigit = false ∧ c ≠ '.' ∧ c ≠ 'e' ∧ c ≠ 'E'

theorem takeWhile_append_of_stops (stops : Stops rest) (text : List Char) :
    (text ++ rest).takeWhile Char.isDigit = text.takeWhile Char.isDigit := by
  induction text with
  | nil =>
    cases rest with
    | nil => rfl
    | cons c rest => exact List.takeWhile_cons_of_neg (by simp [(stops c rfl).1])
  | cons c text ih => simp only [List.cons_append, List.takeWhile_cons, ih]

theorem dropWhile_append_of_stops (stops : Stops rest) (text : List Char) :
    (text ++ rest).dropWhile Char.isDigit = text.dropWhile Char.isDigit ++ rest := by
  induction text with
  | nil =>
    cases rest with
    | nil => rfl
    | cons c rest => exact List.dropWhile_cons_of_neg (by simp [(stops c rfl).1])
  | cons c text ih =>
    simp only [List.cons_append, List.dropWhile_cons, ih]
    split <;> rfl

theorem fraction?_of_ne {c : Char} (other : c ≠ '.') (text : List Char) :
    fraction? (c :: text) = some ([], c :: text) := by
  unfold fraction?
  split
  · next same => exact absurd (List.cons.inj same).1 other
  · rfl

theorem fraction?_append {digits : List Char} (read : fraction? text = some (digits, after))
    (stops : Stops rest) : fraction? (text ++ rest) = some (digits, after ++ rest) := by
  cases text with
  | nil =>
    obtain ⟨rfl, rfl⟩ := Prod.mk.inj (Option.some.inj read)
    cases rest with
    | nil => rfl
    | cons c rest => exact fraction?_of_ne (stops c rfl).2.1 rest
  | cons c text =>
    by_cases point : c = '.'
    · subst point
      simp only [List.cons_append, fraction?, takeWhile_append_of_stops stops,
        dropWhile_append_of_stops stops] at read ⊢
      split at read
      · cases read
      · next some =>
        obtain ⟨rfl, rfl⟩ := Prod.mk.inj (Option.some.inj read)
        rw [if_neg some]
    · rw [fraction?_of_ne point] at read
      obtain ⟨rfl, rfl⟩ := Prod.mk.inj (Option.some.inj read)
      exact fraction?_of_ne point (text ++ rest)

theorem exponent?_of_ne {c : Char} (lower : c ≠ 'e') (upper : c ≠ 'E') (text : List Char) :
    exponent? (c :: text) = some (none, c :: text) := by
  simp [exponent?, lower, upper]

/-- Reads the digits of an exponent. -/
def exponentDigits? (negative : Bool) (digits : List Char) :
    Option (Option (Bool × List Char) × List Char) :=
  let taken := digits.takeWhile Char.isDigit
  if taken.isEmpty then none else some (some (negative, taken), digits.dropWhile Char.isDigit)

theorem exponentDigits?_append {negative : Bool} {exponent : Option (Bool × List Char)}
    (read : exponentDigits? negative text = some (exponent, after)) (stops : Stops rest) :
    exponentDigits? negative (text ++ rest) = some (exponent, after ++ rest) := by
  simp only [exponentDigits?, takeWhile_append_of_stops stops,
    dropWhile_append_of_stops stops] at read ⊢
  split at read
  · cases read
  · next found =>
    obtain ⟨rfl, rfl⟩ := Prod.mk.inj (Option.some.inj read)
    rw [if_neg found]

theorem exponent?_letter {c : Char} (letter : c = 'e' ∨ c = 'E') (d : Char) (text : List Char) :
    exponent? (c :: d :: text) =
      exponentDigits? (d == '-') (if d == '-' || d == '+' then text else d :: text) := by
  have found : (c == 'e' || c == 'E') = true := by simpa using letter
  unfold exponent?
  exact if_pos found

theorem exponent?_append {exponent : Option (Bool × List Char)}
    (read : exponent? text = some (exponent, after)) (stops : Stops rest) :
    exponent? (text ++ rest) = some (exponent, after ++ rest) := by
  cases text with
  | nil =>
    obtain ⟨rfl, rfl⟩ := Prod.mk.inj (Option.some.inj read)
    cases rest with
    | nil => rfl
    | cons c rest =>
      obtain ⟨_, _, lower, upper⟩ := stops c rfl
      exact exponent?_of_ne lower upper rest
  | cons c text =>
    by_cases letter : c = 'e' ∨ c = 'E'
    · cases text with
      | nil => rcases letter with rfl | rfl <;> cases read
      | cons d text =>
        rw [exponent?_letter letter] at read
        rw [List.cons_append, List.cons_append, exponent?_letter letter]
        split at read
        · next signed =>
          rw [if_pos signed]
          exact exponentDigits?_append read stops
        · next plain =>
          rw [if_neg plain]
          exact exponentDigits?_append read stops
    · obtain ⟨lower, upper⟩ := not_or.mp letter
      rw [exponent?_of_ne lower upper] at read
      obtain ⟨rfl, rfl⟩ := Prod.mk.inj (Option.some.inj read)
      exact exponent?_of_ne lower upper (text ++ rest)

/-- Reads what follows the digits before the point. -/
def afterWhole? (negative : Bool) (whole rest : List Char) : Option (Literal × List Char) := do
  let (fraction, rest) ← fraction? rest
  let (exponent, rest) ← exponent? rest
  return (⟨negative, whole, fraction, exponent⟩, rest)

/-- Reads a number after its sign. -/
def unsigned? (negative : Bool) (text : List Char) : Option (Literal × List Char) := do
  let whole := if text.head? == some '0' then ['0'] else text.takeWhile Char.isDigit
  if whole.isEmpty then none
  let rest := text.drop whole.length
  if whole == ['0'] && rest.head?.any Char.isDigit then none
  afterWhole? negative whole rest

theorem unsigned?_zero (negative : Bool) (text : List Char) :
    unsigned? negative ('0' :: text) =
      if text.head?.any Char.isDigit then none else afterWhole? negative ['0'] text := by
  have whole : (if ('0' :: text).head? == some '0' then ['0']
      else ('0' :: text).takeWhile Char.isDigit) = ['0'] := rfl
  unfold unsigned?
  simp only [whole]
  cases digit : text.head?.any Char.isDigit <;> simp [digit]

theorem unsigned?_of_ne {c : Char} (other : c ≠ '0') (negative : Bool) (text : List Char) :
    unsigned? negative (c :: text) =
      if c.isDigit then
        afterWhole? negative (c :: text.takeWhile Char.isDigit) (text.dropWhile Char.isDigit)
      else none := by
  have started : (if (c :: text).head? == some '0' then ['0']
      else (c :: text).takeWhile Char.isDigit) = (c :: text).takeWhile Char.isDigit := by
    simp [other]
  have rest : text.drop (text.takeWhile Char.isDigit).length = text.dropWhile Char.isDigit := by
    have parts : text.takeWhile Char.isDigit ++ text.dropWhile Char.isDigit = text :=
      List.takeWhile_append_dropWhile
    have dropped : (text.takeWhile Char.isDigit ++ text.dropWhile Char.isDigit).drop
        (text.takeWhile Char.isDigit).length = text.dropWhile Char.isDigit := List.drop_left
    rwa [parts] at dropped
  unfold unsigned?
  simp only [started]
  cases digit : c.isDigit <;> simp [digit, rest, other]

theorem number?_cons (c : Char) (text : List Char) :
    number? (c :: text) = if c = '-' then unsigned? true text else unsigned? false (c :: text) := by
  split
  · next minus =>
    subst minus
    rfl
  · next plain =>
    have sign : ((c :: text).head? == some '-') = false := by simpa using plain
    unfold number? unsigned? afterWhole?
    simp only [sign]
    rfl

theorem afterWhole?_append {negative : Bool} {whole : List Char} {literal : Literal}
    (read : afterWhole? negative whole text = some (literal, after)) (stops : Stops rest) :
    afterWhole? negative whole (text ++ rest) = some (literal, after ++ rest) := by
  simp only [afterWhole?, Option.bind_eq_bind, Option.bind_eq_some_iff, Option.pure_def,
    Option.some.injEq, Prod.mk.injEq, Prod.exists] at read ⊢
  obtain ⟨fraction, between, first, exponent, last, second, rfl, rfl⟩ := read
  exact ⟨fraction, between ++ rest, fraction?_append first stops, exponent, last ++ rest,
    exponent?_append second stops, rfl, rfl⟩

theorem unsigned?_append {negative : Bool} {literal : Literal}
    (read : unsigned? negative text = some (literal, after)) (stops : Stops rest) :
    unsigned? negative (text ++ rest) = some (literal, after ++ rest) := by
  cases text with
  | nil => cases read
  | cons c text =>
    rw [List.cons_append]
    by_cases zero : c = '0'
    · subst zero
      rw [unsigned?_zero] at read ⊢
      split at read
      · cases read
      · next alone =>
        have still : ¬ (text ++ rest).head?.any Char.isDigit = true := by
          cases text with
          | nil =>
            cases rest with
            | nil => exact alone
            | cons d rest => simp [(stops d rfl).1]
          | cons d text => exact alone
        rw [if_neg still]
        exact afterWhole?_append read stops
    · rw [unsigned?_of_ne zero] at read ⊢
      split at read
      · next digit =>
        rw [if_pos digit, takeWhile_append_of_stops stops, dropWhile_append_of_stops stops]
        exact afterWhole?_append read stops
      · cases read

/-- A number goes as far as it can. -/
theorem number?_append {literal : Literal} (read : number? text = some (literal, after))
    (stops : Stops rest) : number? (text ++ rest) = some (literal, after ++ rest) := by
  cases text with
  | nil => cases read
  | cons c text =>
    rw [List.cons_append, number?_cons, ← List.cons_append]
    rw [number?_cons] at read
    split at read
    · next minus =>
      rw [if_pos minus]
      exact unsigned?_append read stops
    · next plain =>
      rw [if_neg plain]
      exact unsigned?_append read stops

/-- What is left over is part of the text. -/
theorem fraction?_subset {digits : List Char} (read : fraction? text = some (digits, after)) :
    after ⊆ text := by
  cases text with
  | nil =>
    obtain ⟨_, rfl⟩ := Prod.mk.inj (Option.some.inj read)
    exact List.Subset.refl _
  | cons c text =>
    by_cases point : c = '.'
    · subst point
      simp only [fraction?] at read
      split at read
      · cases read
      · obtain ⟨_, rfl⟩ := Prod.mk.inj (Option.some.inj read)
        exact List.subset_cons_of_subset _ (List.dropWhile_subset ..)
    · rw [fraction?_of_ne point] at read
      obtain ⟨_, rfl⟩ := Prod.mk.inj (Option.some.inj read)
      exact List.Subset.refl _

theorem exponentDigits?_subset {negative : Bool} {exponent : Option (Bool × List Char)}
    (read : exponentDigits? negative text = some (exponent, after)) : after ⊆ text := by
  unfold exponentDigits? at read
  dsimp only at read
  split at read
  · cases read
  · obtain ⟨_, rfl⟩ := Prod.mk.inj (Option.some.inj read)
    exact List.dropWhile_subset ..

theorem exponent?_subset {exponent : Option (Bool × List Char)}
    (read : exponent? text = some (exponent, after)) : after ⊆ text := by
  cases text with
  | nil =>
    obtain ⟨_, rfl⟩ := Prod.mk.inj (Option.some.inj read)
    exact List.Subset.refl _
  | cons c text =>
    by_cases letter : c = 'e' ∨ c = 'E'
    · cases text with
      | nil => rcases letter with rfl | rfl <;> cases read
      | cons d text =>
        rw [exponent?_letter letter] at read
        split at read
        · exact List.subset_cons_of_subset _
            (List.subset_cons_of_subset _ (exponentDigits?_subset read))
        · exact List.subset_cons_of_subset _ (exponentDigits?_subset read)
    · obtain ⟨lower, upper⟩ := not_or.mp letter
      rw [exponent?_of_ne lower upper] at read
      obtain ⟨_, rfl⟩ := Prod.mk.inj (Option.some.inj read)
      exact List.Subset.refl _

theorem afterWhole?_subset {negative : Bool} {whole : List Char} {literal : Literal}
    (read : afterWhole? negative whole text = some (literal, after)) : after ⊆ text := by
  simp only [afterWhole?, Option.bind_eq_bind, Option.bind_eq_some_iff, Option.pure_def,
    Option.some.injEq, Prod.mk.injEq, Prod.exists] at read
  obtain ⟨_, between, first, _, last, second, rfl, rfl⟩ := read
  exact List.Subset.trans (exponent?_subset second) (fraction?_subset first)

theorem unsigned?_subset {negative : Bool} {literal : Literal}
    (read : unsigned? negative text = some (literal, after)) : after ⊆ text := by
  cases text with
  | nil => cases read
  | cons c text =>
    refine List.subset_cons_of_subset _ ?_
    by_cases zero : c = '0'
    · subst zero
      rw [unsigned?_zero] at read
      split at read
      · cases read
      · exact afterWhole?_subset read
    · rw [unsigned?_of_ne zero] at read
      split at read
      · exact List.Subset.trans (afterWhole?_subset read) (List.dropWhile_subset ..)
      · cases read

theorem number?_subset {literal : Literal} (read : number? text = some (literal, after)) :
    after ⊆ text := by
  cases text with
  | nil => cases read
  | cons c text =>
    rw [number?_cons] at read
    split at read
    · exact List.subset_cons_of_subset _ (unsigned?_subset read)
    · exact unsigned?_subset read

end Document

end CodeAtlas.Json

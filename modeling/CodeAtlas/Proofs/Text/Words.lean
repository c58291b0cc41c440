import CodeAtlas.Proofs.Text.Trim
import Mathlib.Data.List.DropRight

namespace CodeAtlas

namespace Text

variable {text : List Char}

theorem exists_trim (text : List Char) :
    ∃ front back, text = front ++ trim text ++ back ∧ front.all isBlank = true ∧
      back.all isBlank = true := by
  obtain ⟨front, same, blank⟩ := exists_trimFront text
  obtain ⟨back, rest, blank'⟩ := exists_trimBack (trimFront text)
  refine ⟨front, back, ?_, blank, blank'⟩
  rw [List.append_assoc, trim, ← rest, ← same]

theorem trimBack_trimBack (text : List Char) : trimBack (trimBack text) = trimBack text := by
  rw [trimBack_eq, trimBack_eq, List.reverse_reverse, trimFront, trimFront, List.dropWhile_idempotent]

/-- Blanks before a character that is none are taken away, and so are those after what follows it. -/
theorem trim_around {front back : List Char} {c : Char} (visible : isBlank c = false)
    (blank : front.all isBlank = true) (blank' : back.all isBlank = true) (rest : List Char) :
    trim (front ++ c :: (rest ++ back)) = c :: trimBack rest := by
  rw [trim_append_cons visible, trimFront_of_blank blank, trimBack_append_blank blank',
    List.nil_append]

theorem trim_of_plain (plain : ∀ c ∈ text, isBlank c = false) : trim text = text := by
  have front (text : List Char) (plain : ∀ c ∈ text, isBlank c = false) : trimFront text = text := by
    cases text with
    | nil => rfl
    | cons c text => exact List.dropWhile_cons_of_neg (by simp [plain c List.mem_cons_self])
  have turned := front text.reverse fun c member => plain c (List.mem_reverse.mp member)
  rw [trim, front text plain, trimBack_eq, turned, List.reverse_reverse]

theorem visible_of_all (plain : text.all (!isBlank ·) = true) : ∀ c ∈ text, isBlank c = false := by
  simpa using plain

/-- No blank has another case. -/
theorem toLower_of_isBlank {c : Char} (blank : isBlank c = true) : c.toLower = c := by
  have other : ¬ (c.val ≥ 'A'.val ∧ c.val ≤ 'Z'.val) := by
    rintro ⟨least, most⟩
    have least : 65 ≤ c.toNat := UInt32.le_iff_toNat_le.mp least
    have most : c.toNat ≤ 90 := UInt32.le_iff_toNat_le.mp most
    simp only [isBlank, Bool.or_eq_true, Bool.and_eq_true, decide_eq_true_eq, beq_iff_eq] at blank
    omega
  exact dif_neg other

/-- A text is cut where a character stands for the first time, if it does. -/
theorem drop_takeWhile (mark : Char) (text : List Char) :
    (text.drop (text.takeWhile (· != mark)).length = [] ∧ text.takeWhile (· != mark) = text) ∨
      ∃ rest, text.drop (text.takeWhile (· != mark)).length = mark :: rest ∧
        text = text.takeWhile (· != mark) ++ mark :: rest := by
  have whole : text.takeWhile (· != mark) ++ text.dropWhile (· != mark) = text :=
    List.takeWhile_append_dropWhile
  have left : (text.takeWhile (· != mark) ++ text.dropWhile (· != mark)).drop
      (text.takeWhile (· != mark)).length = text.dropWhile (· != mark) := List.drop_left
  rw [whole] at left
  rw [left]
  cases rest : text.dropWhile (· != mark) with
  | nil =>
    rw [rest, List.append_nil] at whole
    exact .inl ⟨rfl, whole⟩
  | cons c others =>
    have stops := List.head?_dropWhile_not (· != mark) text
    rw [rest] at stops
    obtain rfl : c = mark := by simpa using stops
    exact .inr ⟨others, rfl, by rw [← rest, whole]⟩

theorem takeWhile_append_mark {front : List Char} {mark : Char} (plain : mark ∉ front)
    (rest : List Char) : (front ++ mark :: rest).takeWhile (· != mark) = front := by
  rw [List.takeWhile_append_of_pos fun c member => by
    simpa using fun same : c = mark => plain (same ▸ member)]
  simp

/-- The characters of a text up to its first blank. -/
def firstWord (text : List Char) : List Char := text.takeWhile (!isBlank ·)

theorem go_append {token : List Char} (plain : ∀ c ∈ token, isBlank c = false)
    (rest word : List Char) : words.go (token ++ rest) word = words.go rest (token.reverse ++ word) := by
  induction token generalizing word with
  | nil => rfl
  | cons c token ih =>
    obtain ⟨first, others⟩ := List.forall_mem_cons.mp plain
    rw [List.cons_append, words.go, first, if_neg Bool.false_ne_true, ih others, List.reverse_cons,
      List.append_assoc, List.singleton_append]

/-- A text that does not begin with a blank begins with its first word. -/
theorem head?_words (trimmed : trimFront text = text) :
    (words text).head? = if firstWord text = [] then none else some (firstWord text) := by
  have plain : ∀ c ∈ firstWord text, isBlank c = false := fun c member => by
    simpa using List.mem_takeWhile_imp member
  have close (rest : List (List Char)) : (words.close (firstWord text).reverse rest).head? =
      if firstWord text = [] then rest.head? else some (firstWord text) := by
    unfold words.close
    by_cases nothing : firstWord text = [] <;> simp [nothing]
  have whole : firstWord text ++ text.dropWhile (!isBlank ·) = text :=
    List.takeWhile_append_dropWhile
  have start := go_append plain (text.dropWhile (!isBlank ·)) []
  rw [whole, List.append_nil] at start
  rw [words, start]
  cases rest : text.dropWhile (!isBlank ·) with
  | nil =>
    rw [words.go, close]
    rfl
  | cons c others =>
    have blank : isBlank c = true := by
      have stops := List.head?_dropWhile_not (!isBlank ·) text
      rw [rest] at stops
      simpa using stops
    rw [words.go, blank, if_pos rfl, close]
    by_cases nothing : firstWord text = []
    · rw [nothing, List.nil_append, rest] at whole
      rw [← whole, trimFront, List.dropWhile_cons_of_pos blank] at trimmed
      have short := List.length_dropWhile_le isBlank others
      rw [trimmed, List.length_cons] at short
      omega
    · rw [if_neg nothing, if_neg nothing]

end Text

end CodeAtlas

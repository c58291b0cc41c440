import CodeAtlas.Text.Blank
import CodeAtlas.Text.Lines

namespace CodeAtlas.Text

variable {text front back : List Char}

theorem trimFront_blank_append (blank : front.all isBlank = true) (text : List Char) :
    trimFront (front ++ text) = trimFront text :=
  List.dropWhile_append_of_pos fun c member => List.all_eq_true.mp blank c member

theorem trimFront_of_blank (blank : text.all isBlank = true) : trimFront text = [] := by
  have alone := trimFront_blank_append blank []
  rwa [List.append_nil] at alone

theorem exists_trimFront (text : List Char) :
    ∃ front, text = front ++ trimFront text ∧ front.all isBlank = true :=
  ⟨text.takeWhile isBlank, List.takeWhile_append_dropWhile.symm, List.all_takeWhile⟩

theorem trimFront_ne_nil (visible : text.all isBlank = false) : trimFront text ≠ [] := by
  intro nothing
  obtain ⟨front, same, blank⟩ := exists_trimFront text
  rw [nothing, List.append_nil] at same
  exact Bool.false_ne_true (visible.symm.trans (same ▸ blank))

theorem trimFront_append (visible : text.all isBlank = false) (back : List Char) :
    trimFront (text ++ back) = trimFront text ++ back := by
  have left : (text.dropWhile isBlank).isEmpty = false :=
    List.isEmpty_eq_false_iff.mpr (trimFront_ne_nil visible)
  rw [trimFront, List.dropWhile_append, left]
  rfl

/-- What holds of the front holds of the end, with the text turned round. -/
theorem trimBack_eq (text : List Char) : trimBack text = (trimFront text.reverse).reverse := rfl

theorem trimBack_append_blank (blank : back.all isBlank = true) (text : List Char) :
    trimBack (text ++ back) = trimBack text := by
  have turned : back.reverse.all isBlank = true := by rwa [List.all_reverse]
  rw [trimBack_eq, List.reverse_append, trimFront_blank_append turned, trimBack_eq]

theorem trimBack_append (visible : text.all isBlank = false) (front : List Char) :
    trimBack (front ++ text) = front ++ trimBack text := by
  have turned : text.reverse.all isBlank = false := by rwa [List.all_reverse]
  rw [trimBack_eq, List.reverse_append, trimFront_append turned, List.reverse_append,
    List.reverse_reverse, trimBack_eq]

theorem exists_trimBack (text : List Char) :
    ∃ back, text = trimBack text ++ back ∧ back.all isBlank = true := by
  obtain ⟨front, same, blank⟩ := exists_trimFront text.reverse
  refine ⟨front.reverse, ?_, by rwa [List.all_reverse]⟩
  have turned := congrArg List.reverse same
  rwa [List.reverse_reverse, List.reverse_append, ← trimBack_eq] at turned

theorem trimFront_append_cons {c : Char} (visible : isBlank c = false) (text rest : List Char) :
    trimFront (text ++ c :: rest) = trimFront text ++ c :: rest := by
  cases blank : text.all isBlank with
  | true =>
    rw [trimFront_blank_append blank, trimFront_of_blank blank]
    exact List.dropWhile_cons_of_neg (by simp [visible])
  | false => exact trimFront_append blank _

theorem trimBack_append_cons {c : Char} (visible : isBlank c = false) (text rest : List Char) :
    trimBack (text ++ c :: rest) = text ++ c :: trimBack rest := by
  have turned : (text ++ c :: rest).reverse = rest.reverse ++ c :: text.reverse := by simp
  rw [trimBack_eq, turned, trimFront_append_cons visible, trimBack_eq]
  simp

/-- Blanks are taken away on either side of a character that is not one. -/
theorem trim_append_cons {c : Char} (visible : isBlank c = false) (text rest : List Char) :
    trim (text ++ c :: rest) = trimFront text ++ c :: trimBack rest := by
  rw [trim, trimFront_append_cons visible, trimBack_append_cons visible]

theorem trim_sublist (text : List Char) : (trim text).Sublist text := by
  have turned : (trimFront (trimFront text).reverse).Sublist (trimFront text).reverse :=
    List.dropWhile_sublist isBlank
  have back : (trimBack (trimFront text)).Sublist (trimFront text) := by
    simpa [trimBack_eq] using turned.reverse
  exact back.trans (List.dropWhile_sublist isBlank)

/-- A text without blanks at its ends has none at its front. -/
theorem trimFront_of_trim_eq (trimmed : trim text = text) : trimFront text = text := by
  have inside : (trim text).Sublist (trimFront text) := by
    obtain ⟨back, same, _⟩ := exists_trimBack (trimFront text)
    rw [same]
    exact List.sublist_append_left ..
  rw [trimmed] at inside
  exact (List.dropWhile_sublist isBlank).eq_of_length_le inside.length_le

theorem trimBack_of_trim_eq (trimmed : trim text = text) : trimBack text = text := by
  rwa [trim, trimFront_of_trim_eq trimmed] at trimmed

theorem visible_of_trim_eq (nonempty : text ≠ []) (trimmed : trim text = text) :
    text.all isBlank = false :=
  Bool.eq_false_iff.mpr fun blank =>
    nonempty ((trimFront_of_trim_eq trimmed).symm.trans (trimFront_of_blank blank))

theorem trim_blank_append (blank : front.all isBlank = true) (text : List Char) :
    trim (front ++ text) = trim text :=
  congrArg trimBack (trimFront_blank_append blank text)

theorem trim_append_blank (blank : back.all isBlank = true) (text : List Char) :
    trim (text ++ back) = trim text := by
  cases visible : text.all isBlank with
  | true =>
    have whole : (text ++ back).all isBlank = true := by rw [List.all_append, visible, blank]; rfl
    rw [trim, trimFront_of_blank whole, trim, trimFront_of_blank visible]
  | false => rw [trim, trimFront_append visible, trimBack_append_blank blank, trim]

theorem trim_trimFront (text : List Char) : trim (trimFront text) = trim text := by
  obtain ⟨front, same, blank⟩ := exists_trimFront text
  calc trim (trimFront text) = trim (front ++ trimFront text) := (trim_blank_append blank _).symm
    _ = trim text := by rw [← same]

theorem trim_trimBack (text : List Char) : trim (trimBack text) = trim text := by
  obtain ⟨back, same, blank⟩ := exists_trimBack text
  calc trim (trimBack text) = trim (trimBack text ++ back) := (trim_append_blank blank _).symm
    _ = trim text := by rw [← same]

theorem trim_trim (text : List Char) : trim (trim text) = trim text :=
  (trim_trimBack (trimFront text)).trans (trim_trimFront text)

theorem trim_ne_nil (visible : text.all isBlank = false) : trim text ≠ [] := by
  intro nothing
  obtain ⟨front, same, blank⟩ := exists_trimFront text
  obtain ⟨back, rest, blank'⟩ := exists_trimBack (trimFront text)
  rw [show trimBack (trimFront text) = [] from nothing, List.nil_append] at rest
  have whole : text.all isBlank = true := by rw [same, List.all_append, blank, rest, blank']; rfl
  exact Bool.false_ne_true (visible.symm.trans whole)

/-- A carriage return at the end of a line makes no difference to its text without blanks. -/
theorem trim_closeLine (line : List Char) : trim (closeLine line.reverse).toList = trim line := by
  unfold closeLine
  split
  · next start same =>
    have whole : line = start.reverse ++ ['\r'] := by
      rw [← List.reverse_reverse line, same, List.reverse_cons]
    rw [whole, String.toList_ofList, trim_append_blank (by decide)]
  · rw [String.toList_ofList, List.reverse_reverse]

theorem linesFrom_append {first : List Char} (single : '\n' ∉ first) (rest line : List Char)
    (done : List String) :
    linesFrom (first ++ '\n' :: rest) line done =
      linesFrom rest [] (closeLine (first.reverse ++ line) :: done) := by
  induction first generalizing line with
  | nil => rfl
  | cons c first ih =>
    have other : c ≠ '\n' := fun same => single (same ▸ List.mem_cons_self)
    rw [List.cons_append, linesFrom, ih fun member => single (List.mem_cons_of_mem c member),
      List.reverse_cons, List.append_assoc, List.singleton_append]
    exact other

theorem linesFrom_done (text line : List Char) (done : List String) :
    linesFrom text line done = done.reverse ++ linesFrom text line [] := by
  induction text generalizing line done with
  | nil => cases line <;> simp [linesFrom]
  | cons c text ih =>
    by_cases same : c = '\n'
    · subst same
      rw [linesFrom, ih, linesFrom, ih _ [_], List.reverse_cons, List.append_assoc]
      rfl
    · rw [linesFrom, ih, linesFrom]
      all_goals exact same

/-- What stands before the first line feed is the first line. -/
theorem lines_append {first : String} (single : '\n' ∉ first.toList) (rest : String) :
    lines (first ++ "\n" ++ rest) = closeLine first.toList.reverse :: lines rest := by
  have characters : (first ++ "\n" ++ rest).toList = first.toList ++ '\n' :: rest.toList := by
    simp [String.toList_append]
  rw [lines, characters, linesFrom_append single, linesFrom_done, List.append_nil]
  rfl

theorem utf8ByteSize_ofList_cons (c : Char) (chars : List Char) :
    (String.ofList (c :: chars)).utf8ByteSize = c.utf8Size + (String.ofList chars).utf8ByteSize := by
  rw [← List.singleton_append, String.ofList_append, String.utf8ByteSize_append,
    ← String.utf8ByteSize_singleton]
  rfl

theorem length_le_utf8ByteSize (chars : List Char) :
    chars.length ≤ (String.ofList chars).utf8ByteSize := by
  induction chars with
  | nil => exact Nat.zero_le _
  | cons c chars ih =>
    have positive := c.utf8Size_pos
    rw [utf8ByteSize_ofList_cons, List.length_cons]
    omega

/-- The present line counts as soon as it has a character. -/
theorem length_linesFrom_le (rest line : List Char) (done : List String) :
    (linesFrom rest line done).length ≤ done.length + rest.length + min line.length 1 := by
  induction rest generalizing line done with
  | nil =>
    cases line with
    | nil => simp [linesFrom]
    | cons c line => simp [linesFrom]
  | cons c rest ih =>
    by_cases ends : c = '\n'
    · subst ends
      have later := ih [] (closeLine line :: done)
      rw [linesFrom]
      simp only [List.length_cons, List.length_nil] at later ⊢
      omega
    · have later := ih (c :: line) done
      rw [linesFrom.eq_4 _ _ _ _ ends]
      simp only [List.length_cons] at later ⊢
      omega

theorem length_lines_le (text : String) : (lines text).length ≤ text.utf8ByteSize := by
  have counted := length_linesFrom_le text.toList [] []
  have sized := length_le_utf8ByteSize text.toList
  rw [String.ofList_toList] at sized
  simp only [List.length_nil] at counted
  unfold lines
  omega

end CodeAtlas.Text

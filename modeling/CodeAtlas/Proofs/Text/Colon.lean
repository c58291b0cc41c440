namespace CodeAtlas.Text

private theorem separated_inj {α : Type} {mark : α} {first second rest other : List α}
    (plain : mark ∉ first) (plain' : mark ∉ second)
    (same : first ++ mark :: rest = second ++ mark :: other) : first = second ∧ rest = other := by
  induction first generalizing second with
  | nil =>
    cases second with
    | nil => exact ⟨rfl, (List.cons.inj same).2⟩
    | cons c second =>
      obtain rfl := (List.cons.inj same).1
      exact absurd (List.mem_cons_self ..) plain'
  | cons c first ih =>
    cases second with
    | nil =>
      obtain rfl := (List.cons.inj same).1
      exact absurd (List.mem_cons_self ..) plain
    | cons d second =>
      obtain ⟨rfl, tails⟩ := List.cons.inj same
      obtain ⟨rfl, rests⟩ := ih (fun member => plain (List.mem_cons_of_mem _ member))
        (fun member => plain' (List.mem_cons_of_mem _ member)) tails
      exact ⟨rfl, rests⟩

theorem colon_append_inj {first second rest other : String} (plain : ':' ∉ first.toList)
    (plain' : ':' ∉ second.toList) (same : first ++ ":" ++ rest = second ++ ":" ++ other) :
    first = second ∧ rest = other := by
  have characters : first.toList ++ ':' :: rest.toList = second.toList ++ ':' :: other.toList := by
    simpa [String.toList_append] using congrArg String.toList same
  obtain ⟨firsts, rests⟩ := separated_inj plain plain' characters
  exact ⟨String.toList_injective firsts, String.toList_injective rests⟩

/-- A text begins with one part without a colon at most. -/
theorem colon_start_unique {text first second : String} (plain : ':' ∉ first.toList)
    (plain' : ':' ∉ second.toList) (starts : text.startsWith (first ++ ":") = true)
    (starts' : text.startsWith (second ++ ":") = true) : first = second := by
  rw [String.startsWith_string_iff] at starts starts'
  obtain ⟨rest, same⟩ := starts
  obtain ⟨other, same'⟩ := starts'
  have characters : first.toList ++ ':' :: rest = second.toList ++ ':' :: other := by
    simpa [String.toList_append] using same.trans same'.symm
  exact String.toList_injective (separated_inj plain plain' characters).1

/-- A list and a mark begin a marked list if the list is what stands before the mark, or if both begin
that, or if they end after the mark. -/
private theorem separated_prefix_iff {α : Type} {mark : α} {start first tail : List α} :
    start ++ [mark] <+: first ++ mark :: tail ↔
      start = first ∨ start ++ [mark] <+: first ∨
        ∃ more, start = first ++ mark :: more ∧ more ++ [mark] <+: tail := by
  induction first generalizing start with
  | nil =>
    cases start with
    | nil => simp
    | cons c start =>
      rw [List.nil_append, List.cons_append, List.cons_prefix_cons]
      simp [and_assoc]
  | cons d first ih =>
    cases start with
    | nil => simp
    | cons c start =>
      simp only [List.cons_append, List.cons_prefix_cons, ih, List.cons.injEq]
      constructor
      · rintro ⟨rfl, rfl | inside | ⟨more, rfl, rest⟩⟩
        · exact .inl ⟨rfl, rfl⟩
        · exact .inr (.inl ⟨rfl, inside⟩)
        · exact .inr (.inr ⟨more, ⟨rfl, rfl⟩, rest⟩)
      · rintro (⟨rfl, rfl⟩ | ⟨rfl, inside⟩ | ⟨more, ⟨rfl, rfl⟩, rest⟩)
        · exact ⟨rfl, .inl rfl⟩
        · exact ⟨rfl, .inr (.inl inside)⟩
        · exact ⟨rfl, .inr (.inr ⟨more, rfl, rest⟩)⟩

/-- A text of two parts begins with another text and a colon if the other one is the first part, if the
first part begins so itself, or if the other one ends in the second part before a colon. -/
theorem startsWith_append_colon_iff {first rest start : String} :
    (first ++ ":" ++ rest).startsWith (start ++ ":") = true ↔
      start = first ∨ first.startsWith (start ++ ":") = true ∨
        ∃ more, start = first ++ ":" ++ more ∧ rest.startsWith (more ++ ":") = true := by
  have colon : ":".toList = [':'] := rfl
  simp only [String.startsWith_string_iff, String.toList_append, colon, List.append_assoc,
    List.singleton_append]
  rw [separated_prefix_iff, String.toList_inj]
  refine or_congr_right (or_congr_right ⟨?_, ?_⟩)
  · rintro ⟨more, longer, begins⟩
    refine ⟨String.ofList more, String.toList_injective ?_, ?_⟩
    · simpa using longer
    · simpa using begins
  · rintro ⟨more, rfl, begins⟩
    exact ⟨more.toList, by simp, begins⟩

theorem not_startsWith_colon {text start : String} (plain : ':' ∉ text.toList) :
    ¬ text.startsWith (start ++ ":") = true := by
  intro begins
  exact plain ((String.startsWith_string_iff.mp begins).subset (by simp))

/-- A text of three parts, the last two without a colon, begins with another text and a colon exactly
if the other one is the first part, or the first two, or the first part begins so itself. -/
theorem startsWith_colon_iff {first second third start : String} (plain : ':' ∉ second.toList)
    (plain' : ':' ∉ third.toList) :
    (first ++ ":" ++ (second ++ ":" ++ third)).startsWith (start ++ ":") = true ↔
      start = first ∨ first.startsWith (start ++ ":") = true ∨ start = first ++ ":" ++ second := by
  have rest (more : String) :
      (second ++ ":" ++ third).startsWith (more ++ ":") = true ↔ more = second := by
    rw [startsWith_append_colon_iff, or_iff_right (not_startsWith_colon plain)]
    exact or_iff_left fun ⟨_, _, begins⟩ => not_startsWith_colon plain' begins
  rw [startsWith_append_colon_iff]
  simp only [rest, exists_eq_right]

end CodeAtlas.Text

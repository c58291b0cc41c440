import CodeAtlas.Proofs.Path.Canonical

namespace CodeAtlas.Path

variable {absolute : Bool} {s : Char} {parts : List (List Char)}

def isRooted (path : List Char) : Bool := (Text.trim path).head?.any isSeparator

/-- What is kept of a path, the last part first. -/
def kept (path : List Char) : List (List Char) :=
  (splitAt isSeparator (Text.trim path)).foldl (push (isRooted path)) []

theorem normalizeChars_eq (path : List Char) :
    normalizeChars path = spell (isRooted path) (kept path).reverse := rfl

theorem isStack_kept (path : List Char) : IsStack (isRooted path) (kept path) :=
  IsStack.empty.foldl_push fun _ member => whole_of_mem_splitAt member

theorem canonical_normalize (path : String) : Canonical (normalize path) :=
  (isStack_kept path.toList).canonical

theorem isAbsolute_normalize (path : String) :
    isAbsolute (normalize path) = isRooted path.toList :=
  isAbsolute_spell (isStack_kept path.toList).whole_reverse

theorem isBlank_of_isSeparator {c : Char} (separates : isSeparator c = true) :
    Text.isBlank c = false := by
  rcases Bool.or_eq_true_iff.mp separates with slash | backslash
  · rw [beq_iff_eq.mp slash]
    decide
  · rw [beq_iff_eq.mp backslash]
    decide

theorem isRooted_append (separates : isSeparator s = true) (front back : List Char) :
    isRooted (front ++ s :: back) = (Text.trimFront front).head?.all isSeparator := by
  rw [isRooted, Text.trim_append_cons (isBlank_of_isSeparator separates)]
  cases Text.trimFront front with
  | nil => simpa using separates
  | cons c rest => rfl

theorem kept_append (separates : isSeparator s = true) (front back : List Char) :
    kept (front ++ s :: back) =
      (splitAt isSeparator (Text.trimBack back)).foldl (push (isRooted (front ++ s :: back)))
        ((splitAt isSeparator (Text.trimFront front)).foldl
          (push (isRooted (front ++ s :: back))) []) := by
  rw [kept, Text.trim_append_cons (isBlank_of_isSeparator separates), splitAt_append separates,
    List.foldl_append]

/-- The characters of parts, and one for a slash after each. -/
def weight (parts : List (List Char)) : Nat := parts.flatten.length + parts.length

theorem weight_cons (part : List Char) (parts : List (List Char)) :
    weight (part :: parts) = part.length + 1 + weight parts := by
  simp only [weight, List.flatten_cons, List.length_append, List.length_cons]
  omega

theorem weight_splitAt (p : Char → Bool) (text : List Char) :
    weight (splitAt p text) = text.length + 1 := by
  fun_induction splitAt p text with
  | case1 => rfl
  | case2 c rest marked ih =>
    rw [weight_cons, ih, List.length_nil, List.length_cons]
    omega
  | case3 c rest plain first others same ih =>
    rw [same, weight_cons] at ih
    rw [weight_cons, List.length_cons, List.length_cons]
    omega
  | case4 c rest plain nothing ih =>
    rw [nothing] at ih
    cases ih

theorem weight_push_le (absolute : Bool) (parts : List (List Char)) (segment : List Char) :
    weight (push absolute parts segment) ≤ weight parts + (segment.length + 1) := by
  fun_cases push absolute parts segment <;> grind [weight_cons]

theorem weight_foldl_push_le (absolute : Bool) (segments parts : List (List Char)) :
    weight (segments.foldl (push absolute) parts) ≤ weight parts + weight segments := by
  induction segments generalizing parts with
  | nil => exact Nat.le_add_right ..
  | cons segment segments ih =>
    have first := weight_push_le absolute parts segment
    have rest := ih (push absolute parts segment)
    rw [weight_cons, List.foldl_cons]
    omega

theorem length_join_le (parts : List (List Char)) : (join parts).length ≤ weight parts - 1 := by
  induction parts with
  | nil => exact Nat.le_refl 0
  | cons part others ih =>
    cases others with
    | nil => simp [join, weight]
    | cons next others =>
      rw [join, List.intercalate_cons_cons, List.length_append, List.length_append,
        List.length_singleton, weight_cons, ← join]
      rw [weight_cons] at ih ⊢
      omega

theorem weight_reverse (parts : List (List Char)) : weight parts.reverse = weight parts := by
  simp [weight]

/-- The one spelling of a path is no longer than the path without the blanks at its ends. -/
theorem length_normalizeChars_le (path : List Char) :
    (normalizeChars path).length ≤ (Text.trim path).length := by
  have short := length_join_le (kept path).reverse
  rw [weight_reverse] at short
  rw [normalizeChars_eq, spell]
  cases rooted : isRooted path with
  | false =>
    have light : weight (kept path) ≤ 0 + _ := weight_foldl_push_le ..
    rw [weight_splitAt] at light
    rw [if_neg Bool.false_ne_true]
    omega
  | true =>
    -- The empty segment before the slash in front weighs nothing.
    obtain ⟨c, first, separates⟩ := (Option.any_eq_true ..).mp rooted
    obtain ⟨rest, same⟩ := List.head?_eq_some_iff.mp first
    have inside : kept path = (splitAt isSeparator rest).foldl (push true) [] := by
      rw [kept, rooted, same, ← List.nil_append (c :: rest), splitAt_append separates]
      rfl
    have light : weight (kept path) ≤ 0 + _ := inside ▸ weight_foldl_push_le ..
    rw [weight_splitAt] at light
    rw [if_pos rfl, same, List.length_cons, List.length_cons]
    omega

theorem kept_spell (stack : IsStack absolute parts)
    (trimmed : Text.trim (spell absolute parts.reverse) = spell absolute parts.reverse) :
    isRooted (spell absolute parts.reverse) = absolute ∧
      kept (spell absolute parts.reverse) = parts := by
  have rooted : isRooted (spell absolute parts.reverse) = absolute := by
    rw [isRooted, trimmed]
    cases absolute with
    | true => rfl
    | false => exact head?_join stack.whole_reverse
  have inside : (splitAt isSeparator (join parts.reverse)).foldl (push absolute) [] = parts := by
    by_cases none : parts = []
    · rw [none]
      rfl
    · rw [splitAt_join rfl (mt List.reverse_eq_nil_iff.mp none) fun part member =>
        (stack.whole_reverse part member).2]
      exact stack.foldl_reverse
  refine ⟨rooted, ?_⟩
  rw [kept, rooted, trimmed]
  cases absolute with
  | true =>
    rw [spell, if_pos rfl, ← List.nil_append ('/' :: _), splitAt_append rfl]
    exact inside
  | false => exact inside

/-- A path is its own one spelling if it is canonical and has no blanks at its ends. -/
theorem normalize_eq_self_iff {path : String} :
    normalize path = path ↔ Canonical path ∧ Text.trim path.toList = path.toList := by
  rw [← String.toList_inj, normalize, String.toList_ofList]
  constructor
  · intro same
    have short := length_normalizeChars_le path.toList
    rw [same] at short
    refine ⟨?_, (Text.trim_sublist _).eq_of_length_le short⟩
    rw [← String.ofList_toList (s := path), ← same]
    exact canonical_normalize path
  · rintro ⟨canonical, trimmed⟩
    have whole : path.toList = spell (isAbsolute path) (segments path).reverse.reverse := by
      rw [List.reverse_reverse, spell_segments]
    rw [whole] at trimmed ⊢
    obtain ⟨rooted, inside⟩ := kept_spell canonical.isStack trimmed
    rw [normalizeChars_eq, rooted, inside]

theorem mem_of_mem_push {part segment : List Char} (member : part ∈ push absolute parts segment) :
    part ∈ parts ∨ part = segment := by
  revert member
  fun_cases push absolute parts segment <;> grind

/-- Parts are kept as they are, so none is new. -/
theorem mem_of_mem_foldl_push {segments : List (List Char)} {part : List Char}
    (member : part ∈ segments.foldl (push absolute) parts) : part ∈ parts ∨ part ∈ segments := by
  induction segments generalizing parts with
  | nil => exact .inl member
  | cons segment segments ih =>
    rcases ih member with before | later
    · exact (mem_of_mem_push before).imp_right fun same => List.mem_cons.mpr (.inl same)
    · exact .inr (List.mem_cons_of_mem _ later)

/-- Parts that begin with no blank make a path that begins with none. -/
theorem trimFront_join (trimmed : ∀ part ∈ parts, part ≠ [] ∧ Text.trim part = part) :
    Text.trimFront (join parts) = join parts := by
  cases parts with
  | nil => rfl
  | cons part others =>
    obtain ⟨rest, same⟩ := exists_join_cons part others
    obtain ⟨nonempty, clear⟩ := trimmed part List.mem_cons_self
    rw [same, Text.trimFront_append (Text.visible_of_trim_eq nonempty clear),
      Text.trimFront_of_trim_eq clear]

theorem trimBack_join (trimmed : ∀ part ∈ parts, part ≠ [] ∧ Text.trim part = part) :
    Text.trimBack (join parts) = join parts := by
  rcases parts.eq_nil_or_concat with rfl | ⟨front, last, rfl⟩
  · rfl
  · have clear : Text.trimBack last = last :=
      Text.trimBack_of_trim_eq (trimmed last (by simp)).2
    by_cases alone : front = []
    · simpa [alone, join] using clear
    · rw [List.concat_eq_append, join_snoc alone, Text.trimBack_append_cons (by decide), clear]

theorem trim_spell (trimmed : ∀ part ∈ parts, part ≠ [] ∧ Text.trim part = part) :
    Text.trim (spell absolute parts) = spell absolute parts := by
  cases absolute with
  | true =>
    rw [spell, if_pos rfl, ← List.nil_append ('/' :: _), Text.trim_append_cons (by decide),
      trimBack_join trimmed]
    rfl
  | false =>
    rw [spell, if_neg Bool.false_ne_true, Text.trim, trimFront_join trimmed, trimBack_join trimmed]

/-- A second pass changes nothing if and only if the first one leaves no blanks at the ends, as it
does not where no segment has blanks at its ends. Otherwise the path becomes shorter. -/
theorem normalize_normalize_iff (path : String) :
    (normalize (normalize path) = normalize path ↔
        Text.trim (normalize path).toList = (normalize path).toList) ∧
      ((∀ segment ∈ splitAt isSeparator (Text.trim path.toList), Text.trim segment = segment) →
        normalize (normalize path) = normalize path) ∧
      (normalize (normalize path) ≠ normalize path →
        (normalize (normalize path)).length < (normalize path).length) := by
  have settled : normalize (normalize path) = normalize path ↔
      Text.trim (normalize path).toList = (normalize path).toList :=
    normalize_eq_self_iff.trans (and_iff_right (canonical_normalize path))
  refine ⟨settled, fun clear => settled.mpr ?_, fun changed => ?_⟩
  · have trimmed : ∀ part ∈ (kept path.toList).reverse, part ≠ [] ∧ Text.trim part = part := by
      intro part member
      have listed := (mem_of_mem_foldl_push (List.mem_reverse.mp member)).resolve_left
        List.not_mem_nil
      exact ⟨((isStack_kept path.toList).whole_reverse part member).1, clear part listed⟩
    rw [normalize, String.toList_ofList]
    exact trim_spell trimmed
  · have blank := mt settled.mpr changed
    have short := length_normalizeChars_le (normalize path).toList
    have fewer : (Text.trim (normalize path).toList).length < (normalize path).toList.length :=
      Nat.lt_of_not_le fun long => blank ((Text.trim_sublist _).eq_of_length_le long)
    rw [← String.length_toList, ← String.length_toList, normalize.eq_1 (normalize path),
      String.toList_ofList]
    exact Nat.lt_of_le_of_lt short fewer

/-- No segment has blanks at its ends in the first of these paths. The blank that the other one has
is at the front after the first pass. -/
theorem normalize_normalize_iff_blank :
    (normalize (normalize "src\\.\\../a b.ts") = normalize "src\\.\\../a b.ts" ∧
        normalize "src\\.\\../a b.ts" = "a b.ts") ∧
      (normalize (normalize "./ a")).length < (normalize "./ a").length :=
  ⟨⟨(normalize_normalize_iff _).2.1 (by decide), by decide +kernel⟩,
    (normalize_normalize_iff _).2.2 (by decide +kernel)⟩

/-- What stands before the blank is taken away first, and then the blank. -/
theorem normalize_again_changes :
    normalize "./ a" = " a" ∧ normalize (normalize "./ a") = "a" ∧
      normalize (normalize "./ a") ≠ normalize "./ a" := by
  decide +kernel

end CodeAtlas.Path

import CodeAtlas.Proofs.Text.Words
import CodeAtlas.Search.FileHint

namespace CodeAtlas.FileHint

open Text

variable {line words front back gap : List Char}

/-- The marks of comments that end with their line. -/
def lineMarks : List (List Char) := [['/', '/'], ['-', '-'], ['#']]

/-- The mark at the end of block comments, so many times. -/
def closings (count : Nat) : List Char := (List.replicate count ['*', '/']).flatten

/-- A line that is a comment, with what it says, which has no blanks at its ends. A block comment need
not be closed on its line. Marks that close it are no part of what it says, however many there are. -/
inductive IsComment : List Char → List Char → Prop
  | line {mark front gap words back : List Char} : mark ∈ lineMarks → front.all isBlank = true →
      gap.all isBlank = true → back.all isBlank = true → trim words = words →
      IsComment (front ++ mark ++ gap ++ words ++ back) words
  | block {front gap words space back : List Char} {count : Nat} : front.all isBlank = true →
      gap.all isBlank = true → space.all isBlank = true → back.all isBlank = true →
      trim words = words → (['*', '/'] <:+ words → space ≠ [] ∧ count ≠ 0) →
      IsComment (front ++ ['/', '*'] ++ gap ++ words ++ space ++ closings count ++ back) words

theorem IsComment.trimmed (comment : IsComment line words) : trim words = words := by
  cases comment <;> assumption

theorem trim_between (blank : front.all isBlank = true) (blank' : back.all isBlank = true)
    (trimmed : trim words = words) : trim (front ++ words ++ back) = words := by
  rw [trim_append_blank blank', trim_blank_append blank, trimmed]

theorem reverse_closings (count : Nat) :
    (closings count).reverse = (List.replicate count ['/', '*']).flatten := by
  rw [closings, List.reverse_flatten, List.map_replicate, List.reverse_replicate]
  rfl

theorem dropCommentEnds_append (count : Nat) (rest : List Char) :
    dropCommentEnds ((closings count).reverse ++ rest) = dropCommentEnds rest := by
  rw [reverse_closings]
  induction count with
  | zero => rfl
  | succ count ih => exact ih

theorem dropCommentEnds_of_open (opened : ¬ ['/', '*'] <+: line) : dropCommentEnds line = line := by
  unfold dropCommentEnds
  split
  · next rest => exact absurd ⟨rest, rfl⟩ opened
  · rfl

/-- What is dropped is marks, and none is left. -/
theorem exists_dropCommentEnds (line : List Char) :
    (∃ count, line = (closings count).reverse ++ dropCommentEnds line) ∧
      ¬ ['/', '*'] <+: dropCommentEnds line := by
  fun_induction dropCommentEnds line with
  | case1 rest ih =>
    obtain ⟨⟨count, same⟩, opened⟩ := ih
    refine ⟨⟨count + 1, ?_⟩, opened⟩
    rw [reverse_closings] at same ⊢
    exact congrArg ('/' :: '*' :: ·) same
  | case2 rest other =>
    refine ⟨⟨0, rfl⟩, ?_⟩
    rintro ⟨more, same⟩
    exact other more same.symm

theorem exists_closings (rest : List Char) :
    ∃ inner count, rest = inner ++ closings count ∧ ¬ ['*', '/'] <:+ inner ∧
      (dropCommentEnds rest.reverse).reverse = inner := by
  obtain ⟨⟨count, same⟩, opened⟩ := exists_dropCommentEnds rest.reverse
  refine ⟨(dropCommentEnds rest.reverse).reverse, count, ?_, fun closed => opened ?_, rfl⟩
  · have turned := congrArg List.reverse same
    rwa [List.reverse_reverse, List.reverse_append, List.reverse_reverse] at turned
  · exact List.reverse_suffix.mp (by simpa using closed)

/-- Blanks in front have no part in the mark that a text ends with. -/
theorem closed_of_gap_append (blank : gap.all isBlank = true) (closed : ['*', '/'] <:+ gap ++ words) :
    ['*', '/'] <:+ words := by
  obtain ⟨start, same⟩ := closed
  rcases List.append_eq_append_iff.mp same with ⟨more, rfl, rest⟩ | ⟨more, rfl, rest⟩
  · cases more with
    | nil => exact ⟨[], rest⟩
    | cons c more =>
      obtain ⟨rfl, _⟩ := List.cons.inj rest
      exact absurd (List.all_eq_true.mp blank '*' (by simp)) (by decide)
  · exact ⟨more, rest.symm⟩

theorem not_closed_of_blank (blank : back.all isBlank = true) (nonempty : back ≠ []) :
    ¬ ['*', '/'] <:+ line ++ back := by
  intro closed
  have last : (line ++ back).getLast? = some '/' := by
    obtain ⟨start, same⟩ := closed
    rw [← same]
    simp
  rw [List.getLast?_append_of_ne_nil _ nonempty] at last
  exact absurd (List.all_eq_true.mp blank _ (List.mem_of_getLast? last)) (by decide)

theorem closings_succ (count : Nat) : closings (count + 1) = closings count ++ ['*', '/'] := by
  rw [closings, List.replicate_succ', List.flatten_append, List.flatten_singleton, closings]

/-- Of a block comment, the marks at its end are dropped, and nothing else is. -/
theorem trim_dropCommentEnds {inner : List Char} {count : Nat}
    (opened : count = 0 → ¬ ['*', '/'] <:+ trimBack inner)
    (opened' : count ≠ 0 → ¬ ['*', '/'] <:+ inner) :
    trim (dropCommentEnds (trimBack (inner ++ closings count)).reverse).reverse = trim inner := by
  cases count with
  | zero =>
    have stays : ¬ ['/', '*'] <+: (trimBack inner).reverse := fun closed =>
      opened rfl (List.reverse_prefix.mp closed)
    rw [show inner ++ closings 0 = inner from List.append_nil inner, dropCommentEnds_of_open stays,
      List.reverse_reverse, trim_trimBack]
  | succ count =>
    have visible : trimBack (inner ++ closings (count + 1)) = inner ++ closings (count + 1) := by
      have last := trimBack_append_cons (c := '/') (by decide) (inner ++ closings count ++ ['*']) []
      rw [closings_succ]
      simpa [trimBack] using last
    have stays : ¬ ['/', '*'] <+: inner.reverse := fun closed =>
      opened' (Nat.succ_ne_zero count) (List.reverse_prefix.mp closed)
    rw [visible, List.reverse_append, dropCommentEnds_append, dropCommentEnds_of_open stays,
      List.reverse_reverse]

theorem commentBody?_block (inner : List Char) :
    commentBody? ('/' :: '*' :: trimBack inner) =
      some (trim (dropCommentEnds (trimBack inner).reverse).reverse) := by
  rw [commentBody?, trimBack_trimBack]

theorem commentBody?_of_isComment (comment : IsComment line words) :
    commentBody? (trim line) = some words := by
  cases comment with
  | @line mark front gap _ back marked blank blankGap blankBack trimmed =>
    have read : trim (trimBack (gap ++ words)) = words := by
      rw [trim_trimBack, trim_blank_append blankGap, trimmed]
    have second (c : Char) (visible : isBlank c = false) :
        trimBack (c :: (gap ++ words)) = c :: trimBack (gap ++ words) :=
      trimBack_append_cons visible [] _
    simp only [lineMarks, List.mem_cons, List.not_mem_nil, or_false] at marked
    rcases marked with rfl | rfl | rfl
    · have whole := trim_around (c := '/') (by decide) blank blankBack ('/' :: (gap ++ words))
      rw [second '/' (by decide)] at whole
      simp only [List.append_assoc, List.cons_append, List.nil_append] at whole ⊢
      rw [whole, commentBody?, read]
    · have whole := trim_around (c := '-') (by decide) blank blankBack ('-' :: (gap ++ words))
      rw [second '-' (by decide)] at whole
      simp only [List.append_assoc, List.cons_append, List.nil_append] at whole ⊢
      rw [whole, commentBody?, read]
    · have whole := trim_around (c := '#') (by decide) blank blankBack (gap ++ words)
      simp only [List.append_assoc, List.cons_append, List.nil_append] at whole ⊢
      rw [whole, commentBody?, read]
  | @block front gap _ space back count blank blankGap blankSpace blankBack trimmed closed =>
    have read : trim (dropCommentEnds
        (trimBack (gap ++ words ++ space ++ closings count)).reverse).reverse = words := by
      refine (trim_dropCommentEnds (fun none ends => ?_) (fun some ends => ?_)).trans
        (trim_between blankGap blankSpace trimmed)
      · rw [trimBack_append_blank blankSpace] at ends
        by_cases nothing : words = []
        · rw [nothing, List.append_nil, ← List.nil_append gap, trimBack_append_blank blankGap] at ends
          exact absurd ends (by decide)
        · rw [trimBack_append (visible_of_trim_eq nothing trimmed),
            trimBack_of_trim_eq trimmed] at ends
          exact (closed (closed_of_gap_append blankGap ends)).2 none
      · by_cases nothing : space = []
        · rw [nothing, List.append_nil] at ends
          exact (closed (closed_of_gap_append blankGap ends)).1 nothing
        · exact not_closed_of_blank blankSpace nothing ends
    have whole := trim_around (c := '/') (by decide) blank blankBack
      ('*' :: (gap ++ words ++ space ++ closings count))
    rw [show trimBack ('*' :: _) = '*' :: trimBack _ from trimBack_append_cons (by decide) [] _] at whole
    have spelled : front ++ ['/', '*'] ++ gap ++ words ++ space ++ closings count ++ back =
        front ++ '/' :: ('*' :: (gap ++ words ++ space ++ closings count) ++ back) := by
      simp only [List.append_assoc, List.cons_append, List.nil_append]
    rw [spelled, whole, commentBody?_block, read]

/-- A line that is a comment says one thing, and other lines say nothing. -/
theorem commentBody?_eq_some_iff : commentBody? (trim line) = some words ↔ IsComment line words := by
  refine ⟨fun read => ?_, commentBody?_of_isComment⟩
  obtain ⟨front, back, whole, blank, blankBack⟩ := exists_trim line
  have ended : trimBack (trim line) = trim line := trimBack_of_trim_eq (trim_trim line)
  have lineComment (mark : List Char) {rest : List Char} (marked : mark ∈ lineMarks)
      (same : trim line = mark ++ rest) (found : some (trim rest) = some words) :
      IsComment line words := by
    obtain rfl := Option.some.inj found
    obtain ⟨gap, space, parted, blankGap, blankSpace⟩ := exists_trim rest
    have blankBoth : (space ++ back).all isBlank = true := by
      rw [List.all_append, blankSpace, blankBack]
      rfl
    have spelled : front ++ mark ++ gap ++ trim rest ++ (space ++ back) = line := by
      conv_rhs => rw [whole, same, parted]
      simp only [List.append_assoc]
    exact spelled ▸ .line marked blank blankGap blankBoth (trim_trim rest)
  unfold commentBody? at read
  split at read
  · next rest same =>
    obtain rfl := Option.some.inj read
    have settled : trimBack rest = rest := by
      have inside : trimBack ('/' :: '*' :: rest) = '/' :: '*' :: trimBack rest :=
        trimBack_append_cons (by decide) ['/'] rest
      rw [same, inside] at ended
      exact (List.cons.inj (List.cons.inj ended).2).2
    obtain ⟨inner, count, closed, opened, dropped⟩ := exists_closings rest
    obtain ⟨gap, space, parted, blankGap, blankSpace⟩ := exists_trim inner
    rw [settled, dropped]
    have spelled : front ++ ['/', '*'] ++ gap ++ trim inner ++ space ++ closings count ++ back =
        line := by
      conv_rhs => rw [whole, same, closed, parted]
      simp only [List.append_assoc, List.cons_append, List.nil_append]
    refine spelled ▸ .block blank blankGap blankSpace blankBack (trim_trim inner) fun ends => ?_
    have spaced : space ≠ [] := by
      rintro rfl
      rw [List.append_nil] at parted
      exact opened (parted ▸ ends.trans (List.suffix_append gap (trim inner)))
    -- Without a mark at the end, the line would go on with the blanks before it.
    refine ⟨spaced, fun none => spaced ?_⟩
    have alone : rest = inner := by rw [closed, none, closings, List.replicate_zero]; simp
    obtain ⟨more, rejoined, _⟩ := exists_trimBack (gap ++ trim inner)
    rw [← trimBack_append_blank blankSpace, ← parted, ← alone, settled, alone] at rejoined
    have long := congrArg List.length rejoined
    have longer := congrArg List.length parted
    simp only [List.length_append] at long longer
    exact List.eq_nil_of_length_eq_zero (by omega)
  · next rest same => exact lineComment ['/', '/'] (by simp [lineMarks]) same read
  · next rest same => exact lineComment ['-', '-'] (by simp [lineMarks]) same read
  · next rest same => exact lineComment ['#'] (by simp [lineMarks]) same read
  · cases read

end CodeAtlas.FileHint

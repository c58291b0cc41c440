import CodeAtlas.Path.Basic
import Mathlib.Data.List.Basic
import Mathlib.Tactic.MkIffOfInductiveProp

namespace CodeAtlas.Path

variable {absolute : Bool} {name segment : List Char} {parts : List (List Char)}

theorem splitAt_eq_splitOnP (p : Char → Bool) (text : List Char) :
    splitAt p text = text.splitOnP p := by
  induction text with
  | nil => rfl
  | cons c rest ih =>
    rw [List.splitOnP_cons_eq_if_modifyHead, splitAt, ih]
    cases same : rest.splitOnP p with
    | nil => exact absurd same (List.splitOnP_ne_nil p rest)
    | cons first others => rfl

theorem splitAt_append {p : Char → Bool} {mark : Char} (marked : p mark = true)
    (front back : List Char) :
    splitAt p (front ++ mark :: back) = splitAt p front ++ splitAt p back := by
  simp only [splitAt_eq_splitOnP]
  exact List.splitOnP_append_cons front back marked

/-- No segment has a character at which the text is split. -/
theorem whole_of_mem_splitAt {p : Char → Bool} {text : List Char}
    (member : segment ∈ splitAt p text) : ∀ c ∈ segment, p c = false := by
  fun_induction splitAt p text generalizing segment with
  | case1 =>
    rw [List.mem_singleton.mp member]
    exact fun c inside => absurd inside List.not_mem_nil
  | case2 c rest marked ih =>
    rcases List.mem_cons.mp member with rfl | member
    · exact fun c inside => absurd inside List.not_mem_nil
    · exact ih member
  | case3 c rest plain first others same ih =>
    rw [same] at ih
    rcases List.mem_cons.mp member with rfl | member
    · rw [List.forall_mem_cons]
      exact ⟨eq_false_of_ne_true plain, ih List.mem_cons_self⟩
    · exact ih (List.mem_cons_of_mem _ member)
  | case4 c rest plain nothing ih =>
    rw [List.mem_singleton.mp member, List.forall_mem_singleton]
    exact eq_false_of_ne_true plain

theorem splitAt_join {p : Char → Bool} (slash : p '/' = true) (nonempty : parts ≠ [])
    (whole : ∀ part ∈ parts, ∀ c ∈ part, p c = false) : splitAt p (join parts) = parts := by
  induction parts with
  | nil => exact absurd rfl nonempty
  | cons part others ih =>
    have first := whole part List.mem_cons_self
    cases others with
    | nil =>
      rw [join, List.intercalate_singleton, splitAt_eq_splitOnP, List.splitOnP_eq_singleton first]
    | cons next others =>
      have rest := ih (List.cons_ne_nil _ _) fun other member =>
        whole other (List.mem_cons_of_mem _ member)
      rw [join, List.intercalate_cons_cons, List.append_assoc, List.singleton_append,
        splitAt_eq_splitOnP, List.splitOnP_append_cons_of_forall_mem first _ slash,
        ← splitAt_eq_splitOnP]
      exact congrArg (part :: ·) rest

theorem join_snoc (nonempty : parts ≠ []) (last : List Char) :
    join (parts ++ [last]) = join parts ++ '/' :: last := by
  induction parts with
  | nil => exact absurd rfl nonempty
  | cons part others ih =>
    cases others with
    | nil => simp [join]
    | cons next others =>
      have rest := ih (List.cons_ne_nil _ _)
      simp only [join, List.cons_append, List.intercalate_cons_cons] at rest ⊢
      rw [rest]
      simp

/-- A segment that names a file or a folder. -/
@[mk_iff]
structure IsName (segment : List Char) : Prop where
  ne_nil : segment ≠ []
  ne_point : segment ≠ ['.']
  ne_points : segment ≠ ['.', '.']
  whole : ∀ c ∈ segment, isSeparator c = false

instance (segment : List Char) : Decidable (IsName segment) :=
  -- The characters of the segment are tried, not all that there are.
  have : Decidable (∀ c ∈ segment, isSeparator c = false) := List.decidableBAll _ segment
  decidable_of_iff' _ (isName_iff segment)

theorem push_idle (idle : segment = [] ∨ segment = ['.']) :
    push absolute parts segment = parts := by
  rcases idle with rfl | rfl <;> rfl

theorem push_name (isName : IsName name) : push absolute parts name = name :: parts := by
  simp [push, isName.ne_nil, isName.ne_point, isName.ne_points]

/-- Two points take the name before them away. -/
theorem push_points (isName : IsName name) :
    push absolute (name :: parts) ['.', '.'] = parts := by
  simp [push, isName.ne_points]

theorem push_points_replicate (count : Nat) :
    push false (List.replicate count ['.', '.']) ['.', '.'] =
      List.replicate (count + 1) ['.', '.'] := by
  cases count <;> rfl

theorem idle_or_points_or_name (whole : ∀ c ∈ segment, isSeparator c = false) :
    (segment = [] ∨ segment = ['.']) ∨ segment = ['.', '.'] ∨ IsName segment := by
  by_cases idle : segment = [] ∨ segment = ['.']
  · exact .inl idle
  by_cases points : segment = ['.', '.']
  · exact .inr (.inl points)
  obtain ⟨nonempty, other⟩ := not_or.mp idle
  exact .inr (.inr ⟨nonempty, other, points, whole⟩)

/-- What is kept of a path, the last part first: names, after two points for each folder that the
path leads up before. An absolute path leads up before none. -/
inductive IsStack (absolute : Bool) : List (List Char) → Prop
  | start (count : Nat) : (absolute = true → count = 0) →
      IsStack absolute (List.replicate count ['.', '.'])
  | name {name : List Char} {parts : List (List Char)} :
      IsName name → IsStack absolute parts → IsStack absolute (name :: parts)

namespace IsStack

theorem empty : IsStack absolute [] := .start 0 fun _ => rfl

theorem push_points (stack : IsStack absolute parts) :
    IsStack absolute (push absolute parts ['.', '.']) := by
  cases stack with
  | name isName below =>
    rw [Path.push_points isName]
    exact below
  | start count none =>
    cases absolute with
    | true =>
      rw [none rfl]
      exact empty
    | false =>
      rw [push_points_replicate]
      exact .start (count + 1) nofun

theorem push (stack : IsStack absolute parts) (whole : ∀ c ∈ segment, isSeparator c = false) :
    IsStack absolute (push absolute parts segment) := by
  rcases idle_or_points_or_name whole with idle | rfl | isName
  · rw [push_idle idle]
    exact stack
  · exact stack.push_points
  · rw [push_name isName]
    exact .name isName stack

theorem foldl_push (stack : IsStack absolute parts) {segments : List (List Char)}
    (whole : ∀ segment ∈ segments, ∀ c ∈ segment, isSeparator c = false) :
    IsStack absolute (segments.foldl (Path.push absolute) parts) := by
  induction segments generalizing parts with
  | nil => exact stack
  | cons segment segments ih =>
    obtain ⟨first, rest⟩ := List.forall_mem_cons.mp whole
    exact ih (stack.push first) rest

/-- What was kept is kept again. -/
theorem foldl_reverse (stack : IsStack absolute parts) :
    parts.reverse.foldl (Path.push absolute) [] = parts := by
  induction stack with
  | start count none =>
    rw [List.reverse_replicate]
    induction count with
    | zero => rfl
    | succ count ih =>
      obtain rfl : absolute = false :=
        eq_false_of_ne_true fun rooted => Nat.succ_ne_zero count (none rooted)
      calc (List.replicate (count + 1) ['.', '.']).foldl (Path.push false) []
          = Path.push false ((List.replicate count ['.', '.']).foldl (Path.push false) [])
              ['.', '.'] := by rw [List.replicate_succ', List.foldl_append]; rfl
        _ = List.replicate (count + 1) ['.', '.'] := by rw [ih nofun, push_points_replicate]
  | name isName _ ih =>
    rw [List.reverse_cons, List.foldl_append, ih]
    exact push_name isName

theorem points_or_name (stack : IsStack absolute parts) {part : List Char} (member : part ∈ parts) :
    part = ['.', '.'] ∨ IsName part := by
  induction stack with
  | start => exact .inl (List.eq_of_mem_replicate member)
  | name isName _ ih =>
    rcases List.mem_cons.mp member with rfl | member
    · exact .inr isName
    · exact ih member

theorem part (stack : IsStack absolute parts) {part : List Char} (member : part ∈ parts) :
    part ≠ [] ∧ part ≠ ['.'] ∧ ∀ c ∈ part, isSeparator c = false := by
  rcases stack.points_or_name member with rfl | isName
  · simp [isSeparator]
  · exact ⟨isName.ne_nil, isName.ne_point, isName.whole⟩

theorem tail (stack : IsStack absolute parts) : IsStack absolute parts.tail := by
  cases stack with
  | name _ below => exact below
  | start count none =>
    rw [List.tail_replicate]
    exact .start (count - 1) fun rooted => by rw [none rooted]

end IsStack

end CodeAtlas.Path

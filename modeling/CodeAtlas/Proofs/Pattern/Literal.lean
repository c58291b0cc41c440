import CodeAtlas.Pattern.Parse
import CodeAtlas.Proofs.Text.Trim

namespace CodeAtlas

theorem CharSet.ranges_singleton (c : Char) :
    (CharSet.singleton c).ranges = [(c.toNat, c.toNat)] := by
  simp [singleton, ofChars, ofRanges, glue]

theorem CharSet.contains_singleton (c d : Char) : (CharSet.singleton c).contains d = (c == d) := by
  rw [contains, hasCode, ranges_singleton, Bool.eq_iff_iff]
  simp only [List.any_cons, List.any_nil, Bool.or_false, Bool.and_eq_true, decide_eq_true_eq,
    beq_iff_eq]
  rw [← Nat.le_antisymm_iff, Char.toNat_inj]

namespace Pattern

open Reader

variable {c : Char} {rest : List Char} {items : List Item} {names : List String} {fuel : Nat}

/-- The pattern of a character that stands for itself. -/
def ofChar (c : Char) : Pattern := .oneOf (.singleton c)

/-- The characters of a text, one after the other. -/
def ofChars (chars : List Char) : Pattern := chars.foldr (fun c rest => .seq (ofChar c) rest) .empty

/-- The texts that begin with certain characters. -/
def startingWith (chars : List Char) : Pattern := .seq (.anchor .textStart) (ofChars chars)

def escapeChar (c : Char) : List Char := if isMeta c then ['\\', c] else [c]

theorem toList_escapeText (text : String) : (escapeText text).toList = text.toList.flatMap escapeChar :=
  String.toList_ofList

theorem escape_of_isMeta (special : isMeta c = true) :
    escape ⟨c :: rest, .default, names⟩ = some (.char c false, ⟨rest, .default, names⟩) := by
  simp only [isMeta, List.contains_iff_mem, List.mem_cons, List.not_mem_nil, or_false] at special
  rcases special with rfl | rfl | rfl | rfl | rfl | rfl | rfl | rfl | rfl | rfl | rfl | rfl | rfl |
    rfl | rfl | rfl | rfl | rfl <;> rfl

theorem primitive_of_isMeta (special : isMeta c = true) :
    primitive .default '\\' ⟨c :: rest, .default, names⟩ =
      some (some (ofChar c, 0), ⟨rest, .default, names⟩) := by
  change (escape ⟨c :: rest, .default, names⟩).bind _ = _
  rw [escape_of_isMeta special]
  rfl

theorem primitive_of_not_isMeta (plain : isMeta c = false) (reading : Reading) :
    primitive .default c reading = some (some (ofChar c, 0), reading) := by
  unfold primitive
  split
  · cases plain
  · cases plain
  · cases plain
  · cases plain
  · rfl

/-- An item that begins with a character and is neither a class nor a group is read by itself. -/
theorem sequence_cons {item : Item} {left : List Char}
    (alone : c ∉ ['|', ')', '(', '[', '?', '*', '+', '\x7b'])
    (read : primitive .default c ⟨rest, .default, names⟩ = some (item, ⟨left, .default, names⟩)) :
    sequence (fuel + 1) items ⟨c :: rest, .default, names⟩ =
      sequence fuel (item :: items) ⟨left, .default, names⟩ := by
  simp only [List.mem_cons, List.not_mem_nil, or_false, not_or] at alone
  have next : (sequence (fuel + 1) items).run ⟨c :: rest, .default, names⟩ =
      ((primitive .default c).run ⟨rest, .default, names⟩).bind fun (item, reading) =>
        (sequence fuel (item :: items)).run reading := by
    simp [sequence, skipBlanks, peek?, skip, flags, Flags.default, alone]
  exact next.trans (congrArg (Option.bind · _) read)

theorem isMeta_of_mem (member : c ∈ ['|', ')', '(', '[', '?', '*', '+', '\x7b']) :
    isMeta c = true := by
  simp only [List.mem_cons, List.not_mem_nil, or_false] at member
  rcases member with rfl | rfl | rfl | rfl | rfl | rfl | rfl | rfl <;> rfl

theorem sequence_escapeChar (c : Char) :
    sequence (fuel + 1) items ⟨escapeChar c ++ rest, .default, names⟩ =
      sequence fuel (some (ofChar c, 0) :: items) ⟨rest, .default, names⟩ := by
  unfold escapeChar
  split
  · next special => exact sequence_cons (by decide) (primitive_of_isMeta special)
  · next plain =>
    exact sequence_cons (plain ∘ isMeta_of_mem)
      (primitive_of_not_isMeta (Bool.eq_false_iff.mpr plain) _)

theorem sequence_flatMap (chars : List Char) :
    sequence (fuel + chars.length) items ⟨chars.flatMap escapeChar ++ rest, .default, names⟩ =
      sequence fuel ((chars.map fun c => some (ofChar c, 0)).reverse ++ items)
        ⟨rest, .default, names⟩ := by
  induction chars generalizing items with
  | nil => rfl
  | cons c chars ih =>
    rw [List.flatMap_cons, List.append_assoc, List.length_cons, ← Nat.add_assoc,
      sequence_escapeChar, ih, List.map_cons, List.reverse_cons, List.append_assoc]
    rfl

/-- The characters of a beginning of texts, as they are read. -/
theorem sequenceOf_startingWith (c : Char) (chars : List Char) :
    sequenceOf (((c :: chars).map fun c => some (ofChar c, 0)).reverse ++
      [some (.anchor .textStart, 0)]) = (startingWith (c :: chars), 1) := by
  have parts : ((((c :: chars).map fun c => some (ofChar c, 0)).reverse ++
      [some (.anchor .textStart, 0)] : List Item).filterMap id).reverse =
      (.anchor .textStart, 0) :: (ofChar c, 0) :: chars.map fun c => (ofChar c, 0) := by
    simp [List.filterMap_map]
  have flat : ∀ items : List Char, items.foldl (fun depth _ => depth) 0 = 0 := by
    intro items
    induction items with
    | nil => rfl
    | cons _ _ ih => exact ih
  rw [sequenceOf, parts]
  simp [startingWith, ofChars, List.foldr_map, List.foldl_map, flat]

theorem length_le_flatMap (chars : List Char) : chars.length ≤ (chars.flatMap escapeChar).length := by
  induction chars with
  | nil => exact Nat.le_refl 0
  | cons c chars ih =>
    rw [List.flatMap_cons, List.length_append, List.length_cons, escapeChar, Nat.add_comm]
    have one : 1 ≤ (if isMeta c then ['\\', c] else [c]).length := by split <;> simp
    exact Nat.add_le_add one ih

/-- How the pattern of a beginning of texts is read. -/
theorem alternatives_startingWith (c : Char) (chars : List Char) {fuel : Nat}
    (enough : chars.length + 3 < fuel) :
    alternatives fuel [] ⟨'^' :: (c :: chars).flatMap escapeChar, .default, []⟩ =
      some ((startingWith (c :: chars), 1), ⟨[], .default, []⟩) := by
  obtain ⟨spare, rfl⟩ : ∃ spare, fuel = spare + 1 + (c :: chars).length + 1 + 1 :=
    ⟨fuel - (chars.length + 4), by simp; omega⟩
  have caret : primitive .default '^' ⟨(c :: chars).flatMap escapeChar, .default, []⟩ =
      some (some (.anchor .textStart, 0), ⟨(c :: chars).flatMap escapeChar, .default, []⟩) := rfl
  have read : sequence (spare + 1 + (c :: chars).length + 1) []
      ⟨'^' :: (c :: chars).flatMap escapeChar, .default, []⟩ =
      some (((c :: chars).map fun c => some (ofChar c, 0)).reverse ++
        [some (.anchor .textStart, 0)], ⟨[], .default, []⟩) := by
    rw [sequence_cons (by decide) caret, ← List.append_nil ((c :: chars).flatMap escapeChar),
      sequence_flatMap]
    rfl
  rw [alternatives]
  change (sequence (spare + 1 + (c :: chars).length + 1) [] _).bind _ = _
  rw [read]
  change some (sequenceOf _, _) = _
  rw [sequenceOf_startingWith]

/-- The pattern of a beginning of texts is read unless it is too large. -/
theorem parse?_startingWith [PatternLimit] {text : String} {chars : List Char} (given : chars ≠ [])
    (same : text.toList = '^' :: chars.flatMap escapeChar) :
    parse? text =
      if PatternLimit.accepts (startingWith chars) then some (startingWith chars) else none := by
  obtain ⟨c, chars, rfl⟩ := List.exists_cons_of_ne_nil given
  have enough : chars.length + 3 < 4 * text.toList.length + 4 := by
    have := length_le_flatMap (c :: chars)
    rw [same, List.length_cons]
    rw [List.length_cons] at this
    omega
  rw [parse?, same]
  rw [same] at enough
  change (alternatives _ [] ⟨_, .default, []⟩).bind _ = _
  rw [alternatives_startingWith c chars enough]
  change Option.bind (if (_ : Prop) then some () else none) _ = _
  have shallow : decide (1 ≤ maxDepth) = true := by decide
  cases PatternLimit.accepts (startingWith (c :: chars)) <;> simp [shallow]

section Reach

variable (text : Array Char)

theorem reach_ofChars_nil (chars : List Char) : (ofChars chars).reach text [] = [] := by
  induction chars with
  | nil => rfl
  | cons c chars ih => exact ih

theorem reach_ofChar (c : Char) (place : Nat) :
    (ofChar c).reach text [place] = if text[place]? = some c then [place + 1] else [] := by
  have told : text[place]?.any (CharSet.singleton c).contains = decide (text[place]? = some c) := by
    cases text[place]? with
    | none => rfl
    | some d =>
      rw [Option.any_some, CharSet.contains_singleton, Bool.eq_iff_iff, beq_iff_eq, decide_eq_true_eq,
        Option.some.injEq, eq_comm]
  rw [ofChar, reach, List.filter_cons, told]
  split <;> simp_all

theorem reach_ofChars (chars : List Char) (place : Nat) :
    (ofChars chars).reach text [place] =
      if chars.isPrefixOf (text.toList.drop place) then [place + chars.length] else [] := by
  induction chars generalizing place with
  | nil => rfl
  | cons c chars ih =>
    change (ofChars chars).reach text ((ofChar c).reach text [place]) = _
    rw [reach_ofChar]
    cases found : text[place]? with
    | none =>
      have beyond : text.toList.drop place = [] :=
        List.drop_eq_nil_of_le (Array.getElem?_eq_none_iff.mp found)
      rw [beyond]
      exact reach_ofChars_nil text chars
    | some d =>
      rw [List.drop_eq_getElem?_toList_append, Array.getElem?_toList, found, Option.toList_some,
        List.singleton_append, List.isPrefixOf_cons_cons]
      by_cases same : d = c
      · subst same
        rw [if_pos rfl, ih, beq_self_eq_true, Bool.true_and, List.length_cons, Nat.add_right_comm,
          Nat.add_assoc]
      · have other : (c == d) = false := by simpa using Ne.symm same
        rw [if_neg (same ∘ Option.some.inj), reach_ofChars_nil, other]
        rfl

end Reach

theorem filter_textStart (text : Array Char) (places : Nat) :
    (List.range (places + 1)).filter (Anchor.textStart.holds text) = [0] := by
  rw [List.range_succ_eq_map, List.filter_cons_of_pos (by rfl)]
  simp [Anchor.holds]

/-- The pattern of a beginning of texts occurs in those that begin so. -/
theorem occursIn_startingWith (chars : List Char) (text : String) :
    (startingWith chars).occursIn text = chars.isPrefixOf text.toList := by
  rw [occursIn, startingWith, reach, reach, filter_textStart, reach_ofChars, List.drop_zero]
  cases chars.isPrefixOf text.toList <;> rfl

end Pattern

end CodeAtlas

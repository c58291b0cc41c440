import CodeAtlas.Proofs.Decimal.Leading
import CodeAtlas.Proofs.Json.RoundTrip

namespace CodeAtlas

namespace Json

open Document

namespace Literal

def exponentText : Option (Bool × List Char) → List Char
  | none => []
  | some (true, digits) => 'e' :: '-' :: digits
  | some (false, digits) => 'e' :: '+' :: digits

/-- What stands after the digits before the point. -/
def tail (literal : Literal) : List Char :=
  (if literal.fraction = [] then [] else '.' :: literal.fraction) ++ exponentText literal.exponent

/-- A text of the literal. -/
def text (literal : Literal) : List Char :=
  (if literal.negative then ['-'] else []) ++ (literal.whole ++ literal.tail)

/-- The literal is made of digits and begins with a zero only if nothing else stands before the
point. -/
structure Legible (literal : Literal) : Prop where
  whole : ∀ c ∈ literal.whole, c.isDigit = true
  filled : literal.whole ≠ []
  leading : literal.whole.head? = some '0' → literal.whole = ['0']
  fraction : ∀ c ∈ literal.fraction, c.isDigit = true
  exponent : ∀ found ∈ literal.exponent, found.2 ≠ [] ∧ ∀ c ∈ found.2, c.isDigit = true

end Literal

section Read

variable {digits rest : List Char} {literal : Literal}

theorem takeWhile_digits (all : ∀ c ∈ digits, c.isDigit = true)
    (ends : ∀ c ∈ rest.head?, c.isDigit = false) :
    (digits ++ rest).takeWhile Char.isDigit = digits := by
  rw [List.takeWhile_append_of_pos all]
  cases rest with
  | nil => exact List.append_nil _
  | cons c rest =>
    rw [List.takeWhile_cons_of_neg (by simp [ends c rfl])]
    exact List.append_nil _

theorem dropWhile_digits (all : ∀ c ∈ digits, c.isDigit = true)
    (ends : ∀ c ∈ rest.head?, c.isDigit = false) :
    (digits ++ rest).dropWhile Char.isDigit = rest := by
  rw [List.dropWhile_append_of_pos all]
  cases rest with
  | nil => rfl
  | cons c rest => exact List.dropWhile_cons_of_neg (by simp [ends c rfl])

theorem exponentDigits?_all (negative : Bool) (filled : digits ≠ [])
    (all : ∀ c ∈ digits, c.isDigit = true) :
    exponentDigits? negative digits = some (some (negative, digits), []) := by
  have taken : digits.takeWhile Char.isDigit = digits := List.takeWhile_eq_self_iff.mpr all
  have dropped : digits.dropWhile Char.isDigit = [] := List.dropWhile_eq_nil_iff.mpr all
  simp [exponentDigits?, taken, dropped, filled]

theorem exponent?_text {exponent : Option (Bool × List Char)}
    (legible : ∀ found ∈ exponent, found.2 ≠ [] ∧ ∀ c ∈ found.2, c.isDigit = true) :
    exponent? (Literal.exponentText exponent) = some (exponent, []) := by
  cases exponent with
  | none => rfl
  | some found =>
    obtain ⟨negative, digits⟩ := found
    obtain ⟨filled, all⟩ := legible _ rfl
    cases negative with
    | true => exact (exponent?_letter (.inl rfl) '-' digits).trans (exponentDigits?_all true filled all)
    | false => exact (exponent?_letter (.inl rfl) '+' digits).trans (exponentDigits?_all false filled all)

theorem ends_exponentText (exponent : Option (Bool × List Char)) :
    ∀ c ∈ (Literal.exponentText exponent).head?, c.isDigit = false ∧ c ≠ '.' := by
  match exponent with
  | none => simp [Literal.exponentText]
  | some (true, digits) => simp [Literal.exponentText]
  | some (false, digits) => simp [Literal.exponentText]

theorem fraction?_tail (all : ∀ c ∈ literal.fraction, c.isDigit = true) :
    fraction? literal.tail = some (literal.fraction, Literal.exponentText literal.exponent) := by
  have ends := ends_exponentText literal.exponent
  unfold Literal.tail
  split
  · next none =>
    rw [none, List.nil_append]
    cases begins : Literal.exponentText literal.exponent with
    | nil => rfl
    | cons c rest =>
      rw [begins] at ends
      exact fraction?_of_ne (ends c rfl).2 rest
  · next filled =>
    have stops : ∀ c ∈ (Literal.exponentText literal.exponent).head?, c.isDigit = false :=
      fun c first => (ends c first).1
    rw [List.cons_append, fraction?]
    simp only [takeWhile_digits all stops, dropWhile_digits all stops]
    simp [filled]

theorem afterWhole?_tail (legible : literal.Legible) :
    afterWhole? literal.negative literal.whole literal.tail = some (literal, []) := by
  unfold afterWhole?
  rw [fraction?_tail legible.fraction]
  refine (congrArg (Option.bind · _) (exponent?_text legible.exponent)).trans ?_
  rfl

theorem ends_tail (literal : Literal) : ∀ c ∈ literal.tail.head?, c.isDigit = false := by
  unfold Literal.tail
  split
  · exact fun c first => (ends_exponentText literal.exponent c first).1
  · simp

theorem unsigned?_text (legible : literal.Legible) :
    unsigned? literal.negative (literal.whole ++ literal.tail) = some (literal, []) := by
  have read := afterWhole?_tail legible
  have ends := ends_tail literal
  have all := legible.whole
  have leading := legible.leading
  obtain ⟨c, digits, whole⟩ := List.exists_cons_of_ne_nil legible.filled
  by_cases zero : c = '0'
  · subst zero
    have alone : literal.whole = ['0'] := leading (by rw [whole]; rfl)
    rw [alone] at read ⊢
    rw [List.singleton_append, unsigned?_zero, if_neg]
    · exact read
    · rw [Bool.not_eq_true, Option.any_eq_false]
      exact fun c first => by simp [ends c first]
  · rw [whole] at read all ⊢
    obtain ⟨digit, others⟩ := List.forall_mem_cons.mp all
    rw [List.cons_append, unsigned?_of_ne zero, if_pos digit, takeWhile_digits others ends,
      dropWhile_digits others ends]
    exact read

theorem number?_text (legible : literal.Legible) :
    Document.number? literal.text = some (literal, []) := by
  have read := unsigned?_text legible
  obtain ⟨c, digits, whole⟩ := List.exists_cons_of_ne_nil legible.filled
  have digit : c.isDigit = true := legible.whole c (by rw [whole]; exact List.mem_cons_self)
  have plain : c ≠ '-' := by
    rintro rfl
    cases digit
  unfold Literal.text
  cases sign : literal.negative with
  | true =>
    rw [sign] at read
    rw [if_pos rfl, List.singleton_append, number?_cons, if_pos rfl]
    exact read
  | false =>
    rw [sign] at read
    rw [if_neg Bool.false_ne_true, List.nil_append]
    rw [whole, List.cons_append] at read ⊢
    rw [number?_cons, if_neg plain]
    exact read

theorem Literal.Legible.reads {number : Number} (legible : literal.Legible)
    (written : number.render.toList = literal.text) : number.Reads literal := by
  obtain ⟨c, digits, whole⟩ := List.exists_cons_of_ne_nil legible.filled
  have digit : c.isDigit = true := legible.whole c (by rw [whole]; exact List.mem_cons_self)
  refine .of_alone ?_ (by rw [written]; exact number?_text legible)
  rw [written, Literal.text, whole]
  cases literal.negative with
  | true => exact ⟨'-', _, rfl, .inl rfl⟩
  | false => exact ⟨c, _, rfl, .inr digit⟩

end Read

open Decimal

/-- How many digits stand before the point once the exponent is at work, at most. -/
def Literal.reach (literal : Literal) : Nat :=
  literal.whole.length +
    match literal.exponent with
    | some (false, digits) => Nat.ofDigitChars 10 digits 0
    | _ => 0

/-- The text is one of a literal without a sign that reaches so far at most. -/
def IsWritten (text : List Char) (limit : Int) : Prop :=
  ∃ literal : Literal, literal.Legible ∧ text = literal.whole ++ literal.tail ∧ literal.reach ≤ limit

/-- The number of digits before the point. -/
def width (s : Scaled) : Int := (Nat.toDigits 10 s.coefficient).length + s.exponent

theorem Literal.Legible.signed {literal : Literal} (legible : literal.Legible) (negative : Bool) :
    Literal.Legible { literal with negative } :=
  ⟨legible.whole, legible.filled, legible.leading, legible.fraction, legible.exponent⟩

section Texts

variable {s : Scaled} {limit : Int}

theorem toDigits_all (n : Nat) : ∀ c ∈ Nat.toDigits 10 n, c.isDigit = true :=
  fun _ member => Nat.isDigit_of_mem_toDigits (by decide) (by decide) member

theorem toList_toString (n : Nat) : (toString n).toList = Nat.toDigits 10 n := by
  rw [Nat.toString_eq_repr, Nat.toList_repr]

theorem zeros_all (n : Nat) : ∀ c ∈ List.replicate n '0', c.isDigit = true := by
  intro c member
  rw [(List.mem_replicate.mp member).2]
  rfl

theorem isWritten_pointed (whole fraction : List Char)
    (all : ∀ c ∈ whole ++ fraction, c.isDigit = true) (filled : whole ≠ [])
    (leading : whole.head? = some '0' → whole = ['0'])
    (some : fraction ≠ []) (short : whole.length ≤ limit) :
    IsWritten (whole ++ '.' :: fraction) limit := by
  obtain ⟨before, after⟩ := List.forall_mem_append.mp all
  refine ⟨⟨false, whole, fraction, none⟩, ⟨before, filled, leading, after, by simp⟩, ?_, short⟩
  rw [Literal.tail, if_neg some, Literal.exponentText, List.append_nil]

/-- Only the digits of 0 begin with `0`. -/
theorem leading_toDigits {n : Nat} {more : List Char} (none : n = 0 → more = []) :
    (Nat.toDigits 10 n ++ more).head? = some '0' → Nat.toDigits 10 n ++ more = ['0'] := by
  intro zero
  rw [List.head?_append_of_ne_nil _ Nat.toDigits_ne_nil] at zero
  rcases Nat.eq_zero_or_pos n with rfl | positive
  · rw [none rfl]
    rfl
  · exact absurd zero (head?_toDigits positive)

theorem leading_take {n k : Nat} (less : k < (Nat.toDigits 10 n).length) :
    ((Nat.toDigits 10 n).take k).head? ≠ some '0' := by
  intro zero
  obtain ⟨c, rest, digits⟩ := List.exists_cons_of_ne_nil (Nat.toDigits_ne_nil (n := n) (b := 10))
  cases k with
  | zero => cases zero
  | succ k =>
    rcases Nat.eq_zero_or_pos n with rfl | positive
    · exact absurd less (by simp)
    · refine head?_toDigits positive ?_
      rw [digits] at zero ⊢
      exact zero

theorem isWritten_positional (sound : s.coefficient ≠ 0 ∨ s.exponent ≤ 0) (short : width s ≤ limit)
    (positive : 1 ≤ limit) : IsWritten s.positional.toList limit := by
  have digits := toDigits_all s.coefficient
  unfold width at short
  unfold Scaled.positional
  dsimp only
  rw [toList_toString]
  split
  · rw [String.toList_ofList]
    refine isWritten_pointed _ ['0'] ?_ ?_ (leading_toDigits fun none => ?_) ?_ ?_
    · simpa [or_imp, forall_and] using digits
    · simp
    · have units : s.exponent = 0 := by omega
      rw [units]
      rfl
    · simp
    · rw [List.length_append, List.length_replicate]
      omega
  · split
    · rw [String.toList_ofList]
      generalize place : ((Nat.toDigits 10 s.coefficient).length + s.exponent).toNat = k
      have less : k < (Nat.toDigits 10 s.coefficient).length := by omega
      refine isWritten_pointed _ _ ?_ ?_ (fun zero => absurd zero (leading_take less)) ?_ ?_
      · rw [List.take_append_drop]
        exact digits
      · simp
        omega
      · simp
        omega
      · rw [List.length_take]
        omega
    · have point : "0.".toList = ['0', '.'] := rfl
      rw [String.toList_ofList, List.append_assoc, point]
      refine isWritten_pointed ['0'] (List.replicate _ '0' ++ _) ?_ (by simp)
        (fun _ => rfl) ?_ positive
      · intro c member
        rcases List.mem_append.mp member with zero | later
        · obtain rfl := List.mem_singleton.mp zero
          rfl
        · exact (List.mem_append.mp later).elim (zeros_all _ c) (digits c)
      · simp

theorem toList_negSucc (n : Nat) :
    (toString (Int.negSucc n)).toList = '-' :: Nat.toDigits 10 (n + 1) := by
  rw [show toString (Int.negSucc n) = "-" ++ toString (n + 1) from rfl, String.toList_append,
    toList_toString]
  rfl

/-- The sign and the digits of an exponent. -/
def exponentOf : Int → Bool × List Char
  | .ofNat n => (false, Nat.toDigits 10 n)
  | .negSucc n => (true, Nat.toDigits 10 (n + 1))

theorem exponentOf_legible (place : Int) :
    (exponentOf place).2 ≠ [] ∧ ∀ c ∈ (exponentOf place).2, c.isDigit = true := by
  cases place <;> exact ⟨Nat.toDigits_ne_nil, toDigits_all _⟩

theorem exponentText_exponentOf (place : Int) :
    Literal.exponentText (some (exponentOf place)) =
      'e' :: (if place < 0 then toString place else "+" ++ toString place).toList := by
  cases place with
  | ofNat n =>
    have digits : (toString (Int.ofNat n)).toList = Nat.toDigits 10 n := toList_toString n
    rw [if_neg (by simp), String.toList_append, digits]
    rfl
  | negSucc n =>
    rw [if_pos (Int.negSucc_lt_zero n), toList_negSucc]
    rfl

theorem isWritten_scientific (short : width s ≤ limit) (positive : 1 ≤ limit) :
    IsWritten s.scientific.toList limit := by
  have all := toDigits_all s.coefficient
  obtain ⟨c, rest, digits⟩ :=
    List.exists_cons_of_ne_nil (Nat.toDigits_ne_nil (n := s.coefficient) (b := 10))
  unfold width at short
  unfold Scaled.scientific
  dsimp only
  rw [toList_toString]
  rw [digits] at all short ⊢
  obtain ⟨first, others⟩ := List.forall_mem_cons.mp all
  generalize leads : ((c :: rest).length - 1 + s.exponent : Int) = place
  refine ⟨⟨false, [c], rest, some (exponentOf place)⟩, ⟨?_, by simp, ?_, others, ?_⟩, ?_, ?_⟩
  · exact List.forall_mem_singleton.mpr first
  · exact fun zero => by rw [Option.some.inj zero]
  · rintro found ⟨⟩
    exact exponentOf_legible place
  · rw [Literal.tail, exponentText_exponentOf, String.toList_append, String.toList_append,
      String.toList_ofList]
    cases rest with
    | nil => rfl
    | cons d rest => simp
  · rw [List.length_cons] at leads short
    cases place with
    | ofNat n =>
      rw [Int.ofNat_eq_natCast] at leads
      simp only [Literal.reach, exponentOf, Nat.ofDigitChars_ten_toDigits, List.length_singleton]
      omega
    | negSucc n => exact positive

end Texts

section Numbers

variable {style : Style} {bits : Nat} {text : String}

theorem exists_literal (usual : style.layout.Usual) (written : style.write bits = some text) :
    ∃ (negative : Bool) (b : Binary) (literal : Literal),
      style.layout.classify bits = .finite negative b ∧ literal.Legible ∧
        text.toList = literal.text ∧ literal.reach ≤ max 1 (width b.shortest) := by
  unfold Style.write at written
  split at written
  · cases written
  · cases written
  · next negative b finite =>
    dsimp only at written
    have sound := usual.shortest_coefficient finite
    have one : 1 ≤ max 1 (width b.shortest) := Int.le_max_left ..
    have short : width b.shortest ≤ max 1 (width b.shortest) := Int.le_max_right ..
    have unsigned : IsWritten (if style.lowest ≤
          (toString b.shortest.coefficient).length - 1 + b.shortest.exponent ∧
          (toString b.shortest.coefficient).length - 1 + b.shortest.exponent ≤
            style.highest
        then b.shortest.positional else b.shortest.scientific).toList (max 1 (width b.shortest)) := by
      split
      · exact isWritten_positional sound short one
      · exact isWritten_scientific short one
    obtain ⟨literal, legible, unsigned, reach⟩ := unsigned
    refine ⟨negative, b, { literal with negative }, finite, legible.signed negative, ?_, reach⟩
    obtain rfl := Option.some.inj written
    unfold Literal.text
    cases negative with
    | true => rw [if_pos rfl, String.toList_append, unsigned]; rfl
    | false => rw [if_neg Bool.false_ne_true, unsigned]; rfl

/-- A number is written as a literal or as `null`. -/
theorem reads_number (number : Number) :
    number.render = "null" ∨ ∃ literal, number.Reads literal := by
  cases number with
  | integer value =>
    right
    cases value with
    | ofNat n => exact ⟨naturalLiteral n, reads_natural n⟩
    | negSucc n =>
      refine ⟨⟨true, Nat.toDigits 10 (n + 1), [], none⟩, Literal.Legible.reads ?_ ?_⟩
      · exact ⟨toDigits_all _, Nat.toDigits_ne_nil,
          fun zero => absurd zero (head?_toDigits (Nat.succ_pos n)), by simp, by simp⟩
      · have text : (Number.integer (Int.negSucc n)).render.toList = '-' :: Nat.toDigits 10 (n + 1) :=
          toList_negSucc n
        rw [text]
        simp [Literal.text, Literal.tail, Literal.exponentText]
  | real bits =>
    cases written : Style.double.write bits.toNat with
    | none => left; rw [Number.render, written]; rfl
    | some text =>
      right
      obtain ⟨_, _, literal, _, legible, same, _⟩ := exists_literal Layout.usual_double written
      exact ⟨literal, legible.reads (by rw [Number.render, written]; exact same)⟩
  | single bits =>
    cases written : Style.single.write bits.toNat with
    | none => left; rw [Number.render, written]; rfl
    | some text =>
      right
      obtain ⟨_, _, literal, _, legible, same, _⟩ := exists_literal Layout.usual_single written
      exact ⟨literal, legible.reads (by rw [Number.render, written]; exact same)⟩

end Numbers


mutual

/-- The value with `null` in the place of every number that has no text of its own. -/
def legible : Json → Json
  | number value => if value.render = "null" then null else number value
  | array items => array (legibleItems items)
  | object members => object (legibleMembers members)
  | other => other

def legibleItems : List Json → List Json
  | [] => []
  | item :: rest => legible item :: legibleItems rest

def legibleMembers : List (String × Json) → List (String × Json)
  | [] => []
  | (key, value) :: rest => (key, legible value) :: legibleMembers rest

end

theorem legible_number {number : Number} {literal : Literal} (reads : number.Reads literal) :
    (Json.number number).legible = .number number := by
  obtain ⟨c, tail, text, first⟩ := reads.head
  have some : number.render ≠ "null" := by
    intro none
    rw [none] at text
    obtain rfl : 'n' = c := (List.cons.inj text).1
    rcases first with sign | digit
    · cases sign
    · cases digit
  rw [legible, if_neg some]

mutual

theorem render_legible (json : Json) : json.legible.render = json.render := by
  match json with
  | null => rfl
  | bool _ => rfl
  | string _ => rfl
  | number value =>
    unfold legible
    split
    · next none => rw [render, render, none]
    · rfl
  | array [] => rfl
  | array (item :: rest) =>
    simp only [legible, legibleItems, render, render_legible item, renderItems_legible rest]
  | object [] => rfl
  | object ((key, value) :: rest) =>
    simp only [legible, legibleMembers, render, render_legible value, renderMembers_legible rest]

theorem renderItems_legible (items : List Json) :
    renderItems (legibleItems items) = renderItems items := by
  match items with
  | [] => rfl
  | item :: rest =>
    simp only [legibleItems, renderItems, render_legible item, renderItems_legible rest]

theorem renderMembers_legible (members : List (String × Json)) :
    renderMembers (legibleMembers members) = renderMembers members := by
  match members with
  | [] => rfl
  | (key, value) :: rest =>
    simp only [legibleMembers, renderMembers, render_legible value, renderMembers_legible rest]

end

mutual

theorem exists_document (json : Json) : ∃ document, Spells json.legible document := by
  match json with
  | null => exact ⟨.null, .null⟩
  | bool value => exact ⟨.bool value, .bool value⟩
  | string text => exact ⟨.string (some text), .string text⟩
  | number value =>
    unfold legible
    split
    · exact ⟨.null, .null⟩
    · next some =>
      obtain ⟨literal, reads⟩ := (reads_number value).resolve_left some
      exact ⟨.number literal, .number reads⟩
  | array items =>
    obtain ⟨documents, spells⟩ := exists_items items
    exact ⟨.array documents, .array spells⟩
  | object members =>
    obtain ⟨documents, spells⟩ := exists_members members
    exact ⟨.object documents, .object spells⟩

theorem exists_items (items : List Json) :
    ∃ documents, SpellsItems (legibleItems items) documents := by
  match items with
  | [] => exact ⟨[], .nil⟩
  | item :: rest =>
    obtain ⟨document, head⟩ := exists_document item
    obtain ⟨documents, tail⟩ := exists_items rest
    exact ⟨document :: documents, .cons head tail⟩

theorem exists_members (members : List (String × Json)) :
    ∃ documents, SpellsMembers (legibleMembers members) documents := by
  match members with
  | [] => exact ⟨[], .nil⟩
  | (key, value) :: rest =>
    obtain ⟨document, head⟩ := exists_document value
    obtain ⟨documents, tail⟩ := exists_members rest
    exact ⟨(some key, document) :: documents, .cons key head tail⟩

end

end Json

end CodeAtlas

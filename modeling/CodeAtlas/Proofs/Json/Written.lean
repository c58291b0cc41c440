import CodeAtlas.Decimal.Text
import CodeAtlas.Proofs.Json.Number
import Mathlib.Data.List.TakeWhile
import Mathlib.Tactic.IntervalCases

namespace CodeAtlas

namespace Decimal

/-- What the texts of numbers are made of. -/
def IsNumeric (c : Char) : Prop := c.isDigit = true ∨ c = '.' ∨ c = '-' ∨ c = '+' ∨ c = 'e'

/-- A text that begins with a digit and is made of what numbers are made of. -/
structure IsUnsigned (text : List Char) : Prop where
  head : ∃ c tail, text = c :: tail ∧ c.isDigit = true
  all : ∀ c ∈ text, IsNumeric c

theorem isDigit_of_mem_toString {n : Nat} {c : Char} (member : c ∈ (toString n).toList) :
    c.isDigit = true := by
  rw [Nat.toString_eq_repr, Nat.toList_repr] at member
  exact Nat.isDigit_of_mem_toDigits (by decide) (by decide) member

theorem toString_unsigned (n : Nat) : IsUnsigned (toString n).toList := by
  have filled : (toString n).toList ≠ [] := by simp
  obtain ⟨c, tail, text⟩ := List.exists_cons_of_ne_nil filled
  have first : c.isDigit = true := isDigit_of_mem_toString (text ▸ List.mem_cons_self)
  exact ⟨⟨c, tail, text, first⟩, fun _ member => .inl (isDigit_of_mem_toString member)⟩

theorem IsUnsigned.append {text more : List Char} (unsigned : IsUnsigned text)
    (numeric : ∀ c ∈ more, IsNumeric c) : IsUnsigned (text ++ more) := by
  obtain ⟨⟨c, tail, rfl, digit⟩, all⟩ := unsigned
  refine ⟨⟨c, tail ++ more, rfl, digit⟩, fun d member => ?_⟩
  rcases List.mem_append.mp member with front | back
  · exact all d front
  · exact numeric d back

theorem numeric_zeros (n : Nat) : ∀ c ∈ List.replicate n '0', IsNumeric c := by
  intro c member
  rw [(List.mem_replicate.mp member).2]
  exact .inl rfl

theorem positional_unsigned (s : Scaled) : IsUnsigned s.positional.toList := by
  have digits := toString_unsigned s.coefficient
  unfold Scaled.positional
  dsimp only
  split
  · rw [String.toList_ofList]
    exact (digits.append (numeric_zeros _)).append
      (List.forall_mem_cons.mpr ⟨.inr (.inl rfl), List.forall_mem_singleton.mpr (.inl rfl)⟩)
  · split
    · next inside =>
      rw [String.toList_ofList]
      obtain ⟨⟨c, tail, text, first⟩, all⟩ := digits
      rw [text] at all inside ⊢
      obtain ⟨taken, count⟩ : ∃ taken : Nat,
          ((c :: tail).length + s.exponent : Int).toNat = taken + 1 :=
        Nat.exists_eq_succ_of_ne_zero (by omega)
      rw [count, List.take_succ_cons, List.cons_append]
      refine ⟨⟨c, _, rfl, first⟩, fun d member => ?_⟩
      rw [← List.cons_append, ← List.take_succ_cons] at member
      rcases List.mem_append.mp member with front | back
      · exact all d (List.mem_of_mem_take front)
      · rcases List.mem_cons.mp back with rfl | later
        · exact .inr (.inl rfl)
        · exact all d (List.mem_of_mem_drop later)
    · rw [String.toList_ofList]
      have point : IsUnsigned "0.".toList := ⟨⟨'0', ['.'], rfl, rfl⟩,
        List.forall_mem_cons.mpr ⟨.inl rfl, List.forall_mem_singleton.mpr (.inr (.inl rfl))⟩⟩
      exact (point.append (numeric_zeros _)).append digits.all

theorem numeric_toString (place : Int) : ∀ c ∈ (toString place).toList, IsNumeric c := by
  cases place with
  | ofNat n => exact (toString_unsigned n).all
  | negSucc n =>
    have text : (toString (Int.negSucc n)).toList = '-' :: (toString (n + 1)).toList := by
      rw [show toString (Int.negSucc n) = "-" ++ toString (n + 1) from rfl, String.toList_append]
      rfl
    rw [text]
    exact List.forall_mem_cons.mpr ⟨.inr (.inr (.inl rfl)), (toString_unsigned (n + 1)).all⟩

theorem scientific_unsigned (s : Scaled) : IsUnsigned s.scientific.toList := by
  obtain ⟨⟨c, tail, text, first⟩, all⟩ := toString_unsigned s.coefficient
  rw [text] at all
  have power : ∀ place : Int,
      ∀ d ∈ (if place < 0 then toString place else "+" ++ toString place).toList, IsNumeric d := by
    intro place
    split
    · exact numeric_toString place
    · rw [String.toList_append]
      exact List.forall_mem_cons.mpr ⟨.inr (.inr (.inr (.inl rfl))), numeric_toString place⟩
  have letter : ∀ d ∈ "e".toList, IsNumeric d :=
    List.forall_mem_singleton.mpr (.inr (.inr (.inr (.inr rfl))))
  unfold Scaled.scientific
  dsimp only
  rw [String.toList_append, String.toList_append, String.toList_ofList, text]
  refine (IsUnsigned.append ?_ letter).append (power _)
  cases tail with
  | nil => exact ⟨⟨c, [], rfl, first⟩, all⟩
  | cons d tail =>
    refine ⟨⟨c, _, rfl, first⟩, ?_⟩
    obtain ⟨own, others⟩ := List.forall_mem_cons.mp all
    exact List.forall_mem_cons.mpr ⟨own, List.forall_mem_cons.mpr ⟨.inr (.inl rfl), others⟩⟩

/-- A number is written with a sign at most, a digit, and what numbers are made of. -/
theorem write_numeric {style : Style} {bits : Nat} {text : String}
    (written : style.write bits = some text) :
    (∃ c tail, text.toList = c :: tail ∧ (c = '-' ∨ c.isDigit = true)) ∧
      ∀ c ∈ text.toList, IsNumeric c := by
  unfold Style.write at written
  split at written
  · cases written
  · cases written
  · next negative magnitude _ =>
    dsimp only at written
    have unsigned : IsUnsigned (if style.lowest ≤
          (toString magnitude.shortest.coefficient).length - 1 + magnitude.shortest.exponent ∧
          (toString magnitude.shortest.coefficient).length - 1 + magnitude.shortest.exponent ≤
            style.highest
        then magnitude.shortest.positional else magnitude.shortest.scientific).toList := by
      split
      · exact positional_unsigned _
      · exact scientific_unsigned _
    obtain ⟨⟨c, tail, begins, digit⟩, all⟩ := unsigned
    obtain rfl := Option.some.inj written
    cases negative with
    | true =>
      rw [if_pos rfl, String.toList_append]
      exact ⟨⟨'-', _, rfl, .inl rfl⟩, List.forall_mem_cons.mpr ⟨.inr (.inr (.inl rfl)), all⟩⟩
    | false =>
      rw [if_neg Bool.false_ne_true]
      exact ⟨⟨c, tail, begins, .inr digit⟩, all⟩

end Decimal

namespace Json

open Document

theorem Ends.stops {rest : List Char} (ends : Ends rest) : Stops rest := by
  intro c first
  rcases ends c first with rfl | rfl | rfl <;> decide

/-- It is enough to read a number alone. -/
theorem Number.Reads.of_alone {number : Number} {literal : Literal}
    (head : ∃ c tail, number.render.toList = c :: tail ∧ (c = '-' ∨ c.isDigit = true))
    (read : Document.number? number.render.toList = some (literal, [])) : number.Reads literal where
  head := head
  number? _ ends := number?_append read ends.stops

section Natural

/-- The digits of a number begin with `0` only if there are no others. -/
theorem head?_toDigits {n : Nat} (positive : 0 < n) : (Nat.toDigits 10 n).head? ≠ some '0' := by
  induction n using Nat.base_induction 10 (by decide) with
  | single n small =>
    rw [Nat.toDigits_of_lt_base small]
    interval_cases n <;> decide
  | digit m k small large ih =>
    rw [← Nat.toDigits_append_toDigits (by decide) large small, List.head?_append_of_ne_nil _
      Nat.toDigits_ne_nil]
    exact ih large

theorem number?_toDigits (n : Nat) :
    Document.number? (Nat.toDigits 10 n) = some (⟨false, Nat.toDigits 10 n, [], none⟩, []) := by
  have digits : ∀ c ∈ Nat.toDigits 10 n, c.isDigit = true :=
    fun c member => Nat.isDigit_of_mem_toDigits (by decide) (by decide) member
  rcases Nat.eq_zero_or_pos n with rfl | positive
  · rfl
  · have leading := head?_toDigits positive
    obtain ⟨c, rest, text⟩ := List.exists_cons_of_ne_nil (Nat.toDigits_ne_nil (n := n) (b := 10))
    rw [text] at digits leading ⊢
    obtain ⟨first, others⟩ := List.forall_mem_cons.mp digits
    have nonzero : c ≠ '0' := fun same => leading (congrArg some same)
    have plain : c ≠ '-' := by
      rintro rfl
      cases first
    have taken : rest.takeWhile Char.isDigit = rest := List.takeWhile_eq_self_iff.mpr others
    have dropped : rest.dropWhile Char.isDigit = [] := List.dropWhile_eq_nil_iff.mpr others
    rw [number?_cons, if_neg plain, unsigned?_of_ne nonzero, if_pos first, taken, dropped]
    rfl

theorem le_ofDigitChars (digits : List Char) (n : Nat) : n ≤ Nat.ofDigitChars 10 digits n := by
  induction digits generalizing n with
  | nil => exact Nat.le_refl n
  | cons c digits ih =>
    have more := ih (10 * n + (c.toNat - '0'.toNat))
    rw [Nat.ofDigitChars_cons]
    omega

/-- All digits of a number fit in if the number does. -/
theorem appendDigits_eq {digits : List Char} {n : Nat}
    (fits : Nat.ofDigitChars 10 digits n ≤ Literal.maxSignificand) :
    Literal.appendDigits n digits = (Nat.ofDigitChars 10 digits n, 0) := by
  induction digits generalizing n with
  | nil => rfl
  | cons c digits ih =>
    rw [Nat.ofDigitChars_cons] at fits ⊢
    have next : n * 10 + Literal.digitValue c = 10 * n + (c.toNat - '0'.toNat) := by
      rw [Nat.mul_comm]
      rfl
    have bounded := Nat.le_trans (le_ofDigitChars digits (10 * n + (c.toNat - '0'.toNat))) fits
    unfold Literal.appendDigits
    simp only [next]
    rw [if_pos bounded]
    exact ih fits

theorem literal_number?_natural {n : Nat} (fits : n < UInt64.size) :
    Literal.number? ⟨false, Nat.toDigits 10 n, [], none⟩ = some (.integer n) := by
  have bounded : Nat.ofDigitChars 10 (Nat.toDigits 10 n) 0 ≤ Literal.maxSignificand := by
    rw [Nat.ofDigitChars_ten_toDigits]
    exact Nat.le_pred_of_lt fits
  have value := appendDigits_eq bounded
  rw [Nat.ofDigitChars_ten_toDigits] at value
  simp [Literal.number?, value]

/-- The literal of a natural number. -/
def naturalLiteral (n : Nat) : Literal := ⟨false, Nat.toDigits 10 n, [], none⟩

theorem reads_natural (n : Nat) : (Number.integer n).Reads (naturalLiteral n) := by
  have text : (Number.integer n).render.toList = Nat.toDigits 10 n := Nat.toList_repr
  obtain ⟨c, rest, begins⟩ := List.exists_cons_of_ne_nil (Nat.toDigits_ne_nil (n := n) (b := 10))
  have first : c.isDigit = true := Nat.isDigit_of_mem_toDigits (by decide) (by decide)
    (begins ▸ List.mem_cons_self)
  refine .of_alone ⟨c, rest, text.trans begins, .inr first⟩ ?_
  rw [text]
  exact number?_toDigits n

end Natural

section Single

variable {bits : UInt32} {x : Float32}

theorem isBlank_of_isNumeric {c : Char} (numeric : Decimal.IsNumeric c) : isBlank c = false := by
  rcases numeric with digit | rfl | rfl | rfl | rfl
  · have other : ∀ blank : Char, blank.isDigit = false → c ≠ blank := by
      rintro blank plain rfl
      rw [plain] at digit
      cases digit
    simp [isBlank, other]
  all_goals rfl

/-- A text that begins as a number does and holds no blank is read as one number or not at all. -/
theorem parse?_numeric {text : String} {document : Document}
    (head : ∃ c tail, text.toList = c :: tail ∧ (c = '-' ∨ c.isDigit = true))
    (numeric : ∀ c ∈ text.toList, Decimal.IsNumeric c)
    (read : Document.parse? text = some document) :
    ∃ literal, document = .number literal ∧
      Document.number? text.toList = some (literal, []) := by
  obtain ⟨c, tail, begins, first⟩ := head
  have differs : ∀ other : Char, other ≠ '-' → other.isDigit = false → c ≠ other := by
    rintro other sign digit rfl
    rcases first with rfl | isDigit
    · exact sign rfl
    · rw [digit] at isDigit
      cases isDigit
  have visible : isBlank c = false := isBlank_of_isNumeric (numeric c (begins ▸ List.mem_cons_self))
  rw [begins] at numeric ⊢
  simp only [Document.parse?, begins, value?, skipBlanks_cons visible] at read
  cases found : Document.number? (c :: tail) with
  | none => simp [differs, found] at read
  | some result =>
    obtain ⟨literal, after⟩ := result
    simp [differs, found] at read
    obtain ⟨ends, rfl⟩ := read
    refine ⟨literal, rfl, ?_⟩
    -- What follows the number is part of the text, and no character of it is a blank.
    have within := number?_subset found
    cases after with
    | nil => rfl
    | cons d after =>
      have plain := isBlank_of_isNumeric (numeric d (within List.mem_cons_self))
      rw [skipBlanks_cons plain] at ends
      cases ends

/-- A number whose text is read back is read back in the same way wherever it stands. -/
theorem reads_single
    (back : decode? Decoder.single (number (.single bits)).render = some x) :
    ∃ literal, (Number.single bits).Reads literal ∧
      ∀ depth, Decoder.single depth (.number literal) = some x := by
  have text : (number (.single bits)).render = (Number.single bits).render := rfl
  rw [text] at back
  cases written : Decimal.Style.single.write bits.toNat with
  | none =>
    have none : (Number.single bits).render = "null" := by rw [Number.render, written]; rfl
    rw [none] at back
    cases back
  | some digits =>
    have render : (Number.single bits).render = digits := by rw [Number.render, written]; rfl
    obtain ⟨head, numeric⟩ := Decimal.write_numeric written
    obtain ⟨document, parsed, single⟩ := Option.bind_eq_some_iff.mp back
    rw [render] at parsed
    obtain ⟨literal, rfl, read⟩ := parse?_numeric head numeric parsed
    rw [← render] at head read
    exact ⟨literal, .of_alone head read, fun depth => single⟩

end Single

end Json

end CodeAtlas

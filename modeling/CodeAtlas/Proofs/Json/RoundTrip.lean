import CodeAtlas.Proofs.Json.Record
import CodeAtlas.Proofs.Json.Written
import CodeAtlas.Proofs.List.Made

namespace CodeAtlas.Json

variable {α : Type} {decoder : Decoder α} {depth : Nat} {json : Json}

/-- What a decoder that may go `depth` levels deep makes of the text of a value. -/
def Makes (decoder : Decoder α) (depth : Nat) (json : Json) (result : Option α → Prop) : Prop :=
  ∃ document, Spells json document ∧ ∀ more, result (decoder (more + depth) document)

/-- The decoder makes a value out of the text. -/
abbrev ReadsAs (decoder : Decoder α) (depth : Nat) (json : Json) (x : α) : Prop :=
  Makes decoder depth json (· = some x)

theorem Makes.decode? {result : Option α → Prop} (makes : Makes decoder depth json result)
    (enough : depth ≤ maxDepth) : result (decode? decoder json.render) := by
  obtain ⟨document, spells, made⟩ := makes
  have all := made (maxDepth - depth)
  rw [Nat.sub_add_cancel enough] at all
  rw [Json.decode?, spells.parse?]
  exact all

/-- The text of the number is read as the number. -/
def ReadsBack (x : Float32) : Prop := decode? Decoder.single (ofFloat32 x).render = some x

theorem readsAs_single {x : Float32} (back : ReadsBack x) :
    ReadsAs Decoder.single 0 (ofFloat32 x) x := by
  obtain ⟨literal, reads, single⟩ := reads_single back
  exact ⟨.number literal, .number reads, fun more => single _⟩

section Lists

variable {encode : α → Json} {β : Type} {decoder : Decoder β}

/-- The documents of the items of a list. -/
theorem exists_documents {result : α → Option β → Prop} {xs : List α}
    (each : ∀ x ∈ xs, Makes decoder depth (encode x) (result x)) :
    ∃ documents, SpellsItems (xs.map encode) documents ∧
      xs.Forall₂ (fun x document => ∀ more, result x (decoder (more + depth) document)) documents := by
  induction xs with
  | nil => exact ⟨[], .nil, .nil⟩
  | cons x xs ih =>
    obtain ⟨first, rest⟩ := List.forall_mem_cons.mp each
    obtain ⟨document, spells, made⟩ := first
    obtain ⟨documents, spelled, all⟩ := ih rest
    exact ⟨document :: documents, .cons spells spelled, .cons made all⟩

theorem forall₂_of_mapM {f : Document → Option β} {related : α → β → Prop} {xs : List α}
    {documents : List Document} {ys : List β}
    (all : xs.Forall₂ (fun x document => ∀ y, f document = some y → related x y) documents)
    (mapped : documents.mapM f = some ys) : xs.Forall₂ related ys := by
  induction all generalizing ys with
  | nil =>
    obtain rfl := Option.some.inj mapped
    exact .nil
  | cons head tail ih =>
    rw [List.mapM_cons] at mapped
    obtain ⟨y, first, mapped⟩ := Option.bind_eq_some_iff.mp mapped
    obtain ⟨others, rest, mapped⟩ := Option.bind_eq_some_iff.mp mapped
    obtain rfl := Option.some.inj mapped
    exact .cons (head y first) (ih rest)

theorem readsAs_list {decoder : Decoder α} {xs : List α}
    (each : ∀ x ∈ xs, ReadsAs decoder depth (encode x) x) :
    ReadsAs (Decoder.list decoder) (depth + 1) (.array (xs.map encode)) xs := by
  obtain ⟨documents, spells, all⟩ := exists_documents each
  exact ⟨.array documents, .array spells, fun more =>
    mapM_eq_some_iff.mpr (.flip (all.imp fun _ _ read => read more))⟩

/-- The items that a decoder makes of a list, if it makes any, are related to those that were
written. -/
theorem makes_list {related : α → β → Prop} {xs : List α}
    (each : ∀ x ∈ xs, Makes decoder depth (encode x) fun made => ∀ y, made = some y → related x y) :
    Makes (Decoder.list decoder) (depth + 1) (.array (xs.map encode))
      fun made => ∀ ys, made = some ys → xs.Forall₂ related ys := by
  obtain ⟨documents, spells, all⟩ := exists_documents each
  exact ⟨.array documents, .array spells,
    fun more _ mapped => forall₂_of_mapM (all.imp fun _ _ made => made more) mapped⟩

end Lists

section Naturals

theorem Literal.appendDigits_le {significand : Nat} (small : significand ≤ maxSignificand)
    (digits : List Char) : (appendDigits significand digits).1 ≤ maxSignificand := by
  induction digits generalizing significand with
  | nil => exact small
  | cons c digits ih =>
    unfold appendDigits
    dsimp only
    split
    · next fits => exact ih fits
    · exact small

/-- An integer that is read has at most 64 bits. -/
theorem Literal.natAbs_lt {literal : Literal} {value : Int}
    (read : literal.number? = some (.integer value)) : value.natAbs < UInt64.size := by
  have fits := appendDigits_le (Nat.zero_le maxSignificand) literal.whole
  have most : maxSignificand + 1 = UInt64.size := rfl
  unfold number? at read
  dsimp only at read
  split at read
  · split at read
    · cases read
      omega
    · split at read
      · cases read
      · cases read
        omega
  · obtain ⟨_, _, other⟩ := Option.map_eq_some_iff.mp read
    cases other

theorem Decoder.natural_lt {depth n : Nat} {document : Document}
    (read : natural depth document = some n) : n < UInt64.size := by
  unfold natural at read
  split at read
  · split at read
    · next value number =>
      have fits := Literal.natAbs_lt number
      split at read
      · cases read
        omega
      · cases read
    · cases read
  · cases read

theorem Decoder.natural_literal {n : Nat} (counted : n < UInt64.size) (depth : Nat) :
    natural depth (.number (naturalLiteral n)) = some n := by
  have value : (naturalLiteral n).number? = some (.integer n) := literal_number?_natural counted
  simp [natural, value]

theorem Literal.appendDigits_of_all {n : Nat} {digits : List Char}
    (all : (appendDigits n digits).2 = 0) :
    (appendDigits n digits).1 = Nat.ofDigitChars 10 digits n := by
  induction digits generalizing n with
  | nil => rfl
  | cons c digits ih =>
    have next : n * 10 + digitValue c = 10 * n + (c.toNat - '0'.toNat) := by
      rw [Nat.mul_comm]
      rfl
    rw [Nat.ofDigitChars_cons, ← next]
    unfold appendDigits at all ⊢
    dsimp only at all ⊢
    split at all
    · next fits =>
      rw [if_pos fits]
      exact ih all
    · exact absurd all (Nat.succ_ne_zero _)

theorem Literal.eq_of_number?_natural {n : Nat} {value : Int}
    (number : (naturalLiteral n).number? = some (.integer value)) : value = n := by
  unfold number? naturalLiteral at number
  dsimp only at number
  split at number
  · next plain =>
    have all : (appendDigits 0 (Nat.toDigits 10 n)).2 = 0 := by simpa using plain
    have whole := appendDigits_of_all all
    rw [Nat.ofDigitChars_ten_toDigits] at whole
    rw [if_pos (by decide), whole] at number
    cases number
    rfl
  · obtain ⟨_, _, other⟩ := Option.map_eq_some_iff.mp number
    cases other

/-- The digits of a natural number are read as that number or not at all. -/
theorem Decoder.eq_of_natural_literal {n m depth : Nat}
    (read : natural depth (.number (naturalLiteral n)) = some m) : m = n := by
  unfold natural at read
  dsimp only at read
  split at read
  · next value number =>
    have same := Literal.eq_of_number?_natural number
    rw [same, if_pos (Int.natCast_nonneg n)] at read
    cases read
    rfl
  · cases read

end Naturals

end CodeAtlas.Json

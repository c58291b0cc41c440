import CodeAtlas.Proofs.Json.Finite

namespace CodeAtlas.Json

/-- The value is read from its text as it is if that may nest so deep. -/
inductive Lasts : Nat → Json → Prop
  | null {depth : Nat} : Lasts depth .null
  | bool {depth : Nat} (value : Bool) : Lasts depth (.bool value)
  | string {depth : Nat} (text : String) : Lasts depth (.string text)
  | number {depth : Nat} {number : Number} {literal : Literal} (reads : number.Reads literal)
      (same : literal.number? = some number) : Lasts depth (.number number)
  | array {depth : Nat} {items : List Json} (each : ∀ item ∈ items, Lasts depth item) :
      Lasts (depth + 1) (.array items)
  | object {depth : Nat} {members : List (String × Json)}
      (sorted : members.Pairwise fun first second => first.1 < second.1)
      (each : ∀ member ∈ members, Lasts depth member.2) : Lasts (depth + 1) (.object members)

variable {depth : Nat} {json : Json} {items : List Json} {members : List (String × Json)}

theorem exists_itemsToJson
    (each : ∀ item ∈ items, ∃ document, Spells item document ∧ document.toJson? depth = some item) :
    ∃ documents, SpellsItems items documents ∧
      Document.itemsToJson? depth documents = some items := by
  induction items with
  | nil => exact ⟨[], .nil, rfl⟩
  | cons item items ih =>
    obtain ⟨first, rest⟩ := List.forall_mem_cons.mp each
    obtain ⟨document, spells, read⟩ := first
    obtain ⟨documents, spelled, all⟩ := ih rest
    refine ⟨document :: documents, .cons spells spelled, ?_⟩
    simp [Document.itemsToJson?, read, all]

/-- Members are read one by one, whether they are those of a value or of a dictionary. -/
theorem exists_membersToJson
    (each : ∀ member ∈ members, ∃ document,
      Spells member.2 document ∧ document.toJson? depth = some member.2) :
    ∃ documents, SpellsMembers members documents ∧
      Document.membersToJson? depth documents = some members ∧
      documents.mapM (fun (key, value) => do return (← key, ← Decoder.json depth value)) =
        some members := by
  induction members with
  | nil => exact ⟨[], .nil, rfl, rfl⟩
  | cons member members ih =>
    obtain ⟨first, rest⟩ := List.forall_mem_cons.mp each
    obtain ⟨document, spells, read⟩ := first
    obtain ⟨documents, spelled, all, mapped⟩ := ih rest
    refine ⟨(some member.1, document) :: documents, .cons member.1 spells spelled, ?_, ?_⟩
    · simp [Document.membersToJson?, read, all]
    · have here : Decoder.json depth document = some member.2 := read
      rw [List.mapM_cons, mapped]
      simp [here]

theorem Lasts.exists_document (lasts : Lasts depth json) :
    ∃ document, Spells json document ∧ document.toJson? depth = some json := by
  induction lasts with
  | null => exact ⟨.null, .null, by simp [Document.toJson?]⟩
  | bool value => exact ⟨.bool value, .bool value, by simp [Document.toJson?]⟩
  | string text => exact ⟨.string (some text), .string text, by simp [Document.toJson?]⟩
  | number reads same => exact ⟨.number _, .number reads, by simp [Document.toJson?, same]⟩
  | array _ ih =>
    obtain ⟨documents, spells, read⟩ := exists_itemsToJson ih
    exact ⟨.array documents, .array spells, by simp [Document.toJson?, read]⟩
  | object sorted _ ih =>
    obtain ⟨documents, spells, read, _⟩ := exists_membersToJson ih
    refine ⟨.object documents, .object spells, ?_⟩
    simp [Document.toJson?, read, sortMembers_of_sorted sorted]

/-- Members that last are those of the dictionary that is read from their text. -/
theorem Lasts.exists_dictionary (lasts : Lasts (depth + 1) (.object members)) :
    ∃ document, Spells (.object members) document ∧
      Decoder.dictionary Decoder.json (depth + 1) document = some members := by
  cases lasts with
  | object sorted each =>
    obtain ⟨documents, spells, _, mapped⟩ :=
      exists_membersToJson fun member listed => (each member listed).exists_document
    refine ⟨.object documents, .object spells, ?_⟩
    simp only [Decoder.dictionary, mapped]
    exact congrArg some (sortMembers_of_sorted sorted)

theorem Lasts.natural {n : Nat} (counted : n < UInt64.size) : Lasts depth (ofNat n) :=
  .number (reads_natural n) (literal_number?_natural counted)

end CodeAtlas.Json

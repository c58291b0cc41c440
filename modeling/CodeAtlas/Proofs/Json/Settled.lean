import CodeAtlas.Proofs.Json.Record
import Mathlib.Data.List.Forall2
import Mathlib.Data.Option.Basic
import Mathlib.Data.String.Basic

namespace CodeAtlas.Json

section Sorted

variable {α : Type} {key name : String} {value : α} {members : List (String × α)}

theorem mem_of_mem_insertMember {member : String × α}
    (listed : member ∈ insertMember key value members) :
    member = (key, value) ∨ member ∈ members := by
  induction members with
  | nil => exact .inl (List.mem_singleton.mp listed)
  | cons first rest ih =>
    unfold insertMember at listed
    split at listed
    · exact List.mem_cons.mp listed
    · split at listed
      · exact (List.mem_cons.mp listed).imp_right (List.mem_cons_of_mem _)
      · rcases List.mem_cons.mp listed with rfl | later
        · exact .inr List.mem_cons_self
        · exact (ih later).imp_right (List.mem_cons_of_mem _)

theorem insertMember_sorted
    (sorted : members.Pairwise fun first second => first.1 < second.1) :
    (insertMember key value members).Pairwise fun first second => first.1 < second.1 := by
  induction members with
  | nil => exact List.pairwise_singleton ..
  | cons first rest ih =>
    obtain ⟨below, sorted⟩ := List.pairwise_cons.mp sorted
    unfold insertMember
    split
    · next before =>
      refine .cons ?_ (.cons below sorted)
      exact List.forall_mem_cons.mpr
        ⟨before, fun member listed => String.lt_trans before (below member listed)⟩
    · next after =>
      split
      · next same => exact .cons (fun member listed => same ▸ below member listed) sorted
      · next apart =>
        refine .cons (fun member listed => ?_) (ih sorted)
        rcases mem_of_mem_insertMember listed with rfl | old
        · exact lt_of_le_of_ne (not_lt.mp after) (Ne.symm apart)
        · exact below member old

theorem foldl_insertMember_sorted {taken : List (String × α)}
    (sorted : taken.Pairwise fun first second => first.1 < second.1) :
    (members.foldl (fun taken member => insertMember member.1 member.2 taken) taken).Pairwise
      fun first second => first.1 < second.1 := by
  induction members generalizing taken with
  | nil => exact sorted
  | cons member members ih => exact ih (insertMember_sorted sorted)

/-- No key stands twice among members that are put in their places. -/
theorem sortMembers_distinct (members : List (String × α)) :
    ((sortMembers members).map (·.1)).Nodup := by
  have sorted : (sortMembers members).Pairwise fun first second => first.1 < second.1 :=
    foldl_insertMember_sorted .nil
  exact List.pairwise_map.mpr (sorted.imp String.ne_of_lt)

theorem lookup_foldl_insertMember (taken : List (String × α)) :
    (members.foldl (fun taken member => insertMember member.1 member.2 taken) taken).lookup name =
      (members.reverse.lookup name).or (taken.lookup name) := by
  induction members generalizing taken with
  | nil => rfl
  | cons member members ih =>
    rw [List.foldl_cons, ih, lookup_insertMember, List.reverse_cons, List.lookup_append,
      Option.or_assoc]
    rw [show List.lookup name [member] = if name = member.1 then some member.2 else none from
      lookup_cons_eq_ite ..]
    split <;> rfl

theorem isSome_lookup_iff : (members.lookup name).isSome ↔ name ∈ members.map (·.1) := by
  rw [List.lookup_isSome_iff, List.mem_map]
  exact exists_congr fun member => and_congr_right fun _ => beq_iff_eq.trans eq_comm

/-- Of several members with one key the last counts. -/
theorem lookup_sortMembers (members : List (String × α)) (name : String) :
    (sortMembers members).lookup name = members.reverse.lookup name :=
  (lookup_foldl_insertMember []).trans (Option.or_none ..)

/-- A member that is alone is known by what is found under all names. -/
theorem eq_singleton_of_lookup (distinct : (members.map (·.1)).Nodup)
    (found : ∀ name, members.lookup name = if name = key then some value else none) :
    members = [(key, value)] := by
  cases members with
  | nil =>
    have none := found key
    rw [if_pos rfl] at none
    cases none
  | cons first rest =>
    obtain ⟨own, held⟩ := first
    have here := found own
    rw [lookup_cons_eq_ite, if_pos rfl] at here
    split at here
    · next same =>
      obtain rfl := same
      obtain rfl := Option.some.inj here
      cases rest with
      | nil => rfl
      | cons second rest =>
        obtain ⟨other, held'⟩ := second
        have there := found other
        have apart : other ≠ own := by
          rintro rfl
          exact (List.nodup_cons.mp distinct).1 List.mem_cons_self
        rw [lookup_cons_eq_ite, if_neg apart, lookup_cons_eq_ite, if_pos rfl, if_neg apart] at there
        cases there
    · cases here

end Sorted

section Settled

/-- The document is that of a value once repeated keys are settled. -/
def SettlesTo (document : Document) (value : Json) : Prop :=
  ∃ depth written, Document.toJson? depth written = some value ∧ document = written.settle

variable {document : Document} {value : Json} {depth : Nat}

/-- The members that are left have different keys, and each is that of the value with its key. -/
theorem exists_settledMembers {members : List (Option String × Document)}
    {found : List (String × Json)} (read : Document.membersToJson? depth members = some found) :
    ∃ settled : List (String × Document),
      Document.settleMembers members = settled.map (fun member => (some member.1, member.2)) ∧
        (settled.map (·.1)).Nodup ∧
        ∀ name, Option.Rel SettlesTo (settled.lookup name) (found.reverse.lookup name) := by
  induction members generalizing found with
  | nil =>
    obtain rfl := Option.some.inj read
    exact ⟨[], rfl, .nil, fun _ => .none⟩
  | cons member members ih =>
    obtain ⟨key, written⟩ := member
    obtain ⟨key, rfl, read⟩ := Option.bind_eq_some_iff.mp read
    obtain ⟨value, here, read⟩ := Option.bind_eq_some_iff.mp read
    obtain ⟨later, others, read⟩ := Option.bind_eq_some_iff.mp read
    obtain rfl := Option.some.inj read
    obtain ⟨settled, same, distinct, related⟩ := ih others
    have known : (Document.settleMembers members).any (·.1 == some key) =
        decide (key ∈ settled.map (·.1)) := by
      rw [same, Bool.eq_iff_iff]
      simp
    have lookup : ∀ name, ((key, value) :: later).reverse.lookup name =
        (later.reverse.lookup name).or (if name = key then some value else none) := by
      intro name
      rw [List.reverse_cons, List.lookup_append, lookup_cons_eq_ite]
      rfl
    rw [Document.settleMembers, known]
    -- The document keeps a key where it stands last; the value has the last one of a key as well.
    by_cases repeated : key ∈ settled.map (·.1)
    · refine ⟨settled, by rw [decide_eq_true repeated, if_pos rfl, same], distinct, fun name => ?_⟩
      have stated : name = key → (settled.lookup name).isSome :=
        fun same => isSome_lookup_iff.mpr (same ▸ repeated)
      have related := related name
      rw [lookup]
      generalize settled.lookup name = mine, later.reverse.lookup name = theirs at stated related
      cases related with
      | some reads => exact .some reads
      | none =>
        rw [if_neg fun same => Bool.noConfusion (stated same)]
        exact .none
    · refine ⟨(key, written.settle) :: settled, ?_, List.nodup_cons.mpr ⟨repeated, distinct⟩,
        fun name => ?_⟩
      · rw [decide_eq_false repeated, same]
        rfl
      · rw [lookup, lookup_cons_eq_ite]
        split
        · next same =>
          subst same
          have absent : ¬ (settled.lookup name).isSome :=
            fun some => repeated (isSome_lookup_iff.mp some)
          have related := related name
          generalize settled.lookup name = mine, later.reverse.lookup name = theirs at absent related
          cases related with
          | some reads => exact absurd rfl absent
          | none => exact .some ⟨depth, written, here, rfl⟩
        · rw [Option.or_none]
          exact related name

theorem forall₂_settleItems {items : List Document} {values : List Json}
    (read : Document.itemsToJson? depth items = some values) :
    (Document.settleItems items).Forall₂ SettlesTo values := by
  induction items generalizing values with
  | nil =>
    obtain rfl := Option.some.inj read
    exact .nil
  | cons item items ih =>
    obtain ⟨value, here, read⟩ := Option.bind_eq_some_iff.mp read
    obtain ⟨later, others, read⟩ := Option.bind_eq_some_iff.mp read
    obtain rfl := Option.some.inj read
    exact .cons ⟨depth, item, here, rfl⟩ (ih others)

/-- What a settled document and its value look like. -/
inductive Seen : Document → Json → Prop
  | null : Seen .null .null
  | bool (value : Bool) : Seen (.bool value) (.bool value)
  | number (literal : Literal) (number : Number) : Seen (.number literal) (.number number)
  | string (text : String) : Seen (.string (some text)) (.string text)
  | array {items : List Document} {values : List Json} (each : items.Forall₂ SettlesTo values) :
      Seen (.array items) (.array values)
  | object {settled : List (String × Document)} {members : List (String × Json)}
      (distinct : (settled.map (·.1)).Nodup) (distinct' : (members.map (·.1)).Nodup)
      (each : ∀ name, Option.Rel SettlesTo (settled.lookup name) (members.lookup name)) :
      Seen (.ofMembers settled) (.object members)

theorem SettlesTo.seen (settles : SettlesTo document value) : Seen document value := by
  obtain ⟨depth, written, read, rfl⟩ := settles
  unfold Document.toJson? at read
  split at read
  · obtain rfl := Option.some.inj read
    exact .null
  · obtain rfl := Option.some.inj read
    exact .bool _
  · obtain ⟨number, _, rfl⟩ := Option.map_eq_some_iff.mp read
    exact .number _ number
  · obtain ⟨text, rfl, rfl⟩ := Option.map_eq_some_iff.mp read
    exact .string text
  · cases read
  · cases read
  · obtain ⟨values, items, rfl⟩ := Option.map_eq_some_iff.mp read
    exact .array (forall₂_settleItems items)
  · obtain ⟨found, members, rfl⟩ := Option.map_eq_some_iff.mp read
    obtain ⟨settled, same, distinct, each⟩ := exists_settledMembers members
    rw [Document.settle, same]
    refine .object distinct (sortMembers_distinct found) fun name => ?_
    rw [lookup_sortMembers]
    exact each name

end Settled

/-- What a value has at each of the fields of a record. -/
def fields? (names : List String) : Json → Option (List (Option Json))
  | .array items =>
    if items.length ≤ names.length then
      some ((List.range names.length).map fun place => items[place]?)
    else none
  | .object members => some (names.map fun name => members.lookup name)
  | _ => none

theorem length_fields? (names : List String) (value : Json) (fields : List (Option Json))
    (held : value.fields? names = some fields) : fields.length = names.length := by
  unfold fields? at held
  split at held
  · split at held
    · obtain rfl := Option.some.inj held
      simp
    · cases held
  · obtain rfl := Option.some.inj held
    simp
  · cases held

/-- The value is the word, or an object with the word as its only key and `null` as value. -/
def IsWord (word : String) (value : Json) : Prop :=
  value = .string word ∨ value = .object [(word, .null)]

/-- The field holds the value; if there is none, it is left out or `null`. -/
def MayHold (field : Option Json) : Option Json → Prop
  | none => field = none ∨ field = some .null
  | some value => field = some value

section Decoders

variable {α : Type} {decoder : Decoder α} {document : Document} {value : Json}

/-- What a decoder reads is what the value means. -/
def Decoder.Tells (decoder : Decoder α) (means : Json → α → Prop) : Prop :=
  ∀ ⦃document value⦄, SettlesTo document value → ∀ depth x,
    decoder (depth + 1) document = some x ↔ means value x

theorem tells_string : Decoder.string.Tells fun value text => value = .string text := by
  intro document value settles depth text
  cases settles.seen <;> simp [Decoder.string, Document.ofMembers]

theorem tells_bool : Decoder.bool.Tells fun value flag => value = .bool flag := by
  intro document value settles depth flag
  cases settles.seen <;> simp [Decoder.bool, Document.ofMembers]

theorem SettlesTo.null_iff (settles : SettlesTo document value) :
    document = .null ↔ value = .null := by
  cases settles.seen <;> simp [Document.ofMembers]

/-- What is found under a key is `null` in the one if it is in the other, and so is what is missing. -/
theorem lookup_eq_ite_iff {field : Option Document} {held : Option Json}
    (same : Option.Rel SettlesTo field held) (here : Prop) [Decidable here] :
    field = (if here then some .null else none) ↔ held = (if here then some .null else none) := by
  cases same with
  | none => split <;> simp
  | some settles =>
    split
    · rw [Option.some.injEq, Option.some.injEq]
      exact settles.null_iff
    · simp

/-- The words are the names of what they mean. -/
theorem tells_word {meaning : String → Option α} {name : α → String}
    (named : ∀ text x, meaning text = some x ↔ text = name x) :
    (Decoder.word meaning).Tells fun value x => IsWord (name x) value := by
  intro document value settles depth x
  cases settles.seen with
  | null | bool | number | array => simp [Decoder.word, IsWord]
  | string text => simp [Decoder.word, IsWord, named]
  | @object settled members distinct distinct' each =>
    have alone : settled = [(name x, .null)] ↔ members = [(name x, .null)] := by
      constructor
      · rintro rfl
        exact eq_singleton_of_lookup distinct' fun key =>
          (lookup_eq_ite_iff (each key) _).mp (lookup_cons_eq_ite ..)
      · rintro rfl
        exact eq_singleton_of_lookup distinct fun key =>
          (lookup_eq_ite_iff (each key) _).mpr (lookup_cons_eq_ite ..)
    have spelled : IsWord (name x) (.object members) ↔ members = [(name x, .null)] := by
      simp [IsWord]
    refine Iff.trans ?_ (alone.trans spelled.symm)
    constructor
    · intro read
      unfold Decoder.word at read
      split at read
      · next shape => cases shape
      · next key shape =>
        obtain ⟨text, rfl, meant⟩ := Option.bind_eq_some_iff.mp read
        obtain ⟨⟨own, held⟩, rfl, same⟩ := List.map_eq_singleton_iff.mp (Document.object.inj shape)
        obtain ⟨rfl, rfl⟩ : own = text ∧ held = .null := by simpa using same
        rw [(named own x).mp meant]
      · cases read
    · rintro rfl
      exact (named _ x).mpr rfl

theorem getElem?_related {β : Type} {related : α → β → Prop} {items : List α} {others : List β}
    (each : items.Forall₂ related others) (place : Nat) :
    Option.Rel related items[place]? others[place]? := by
  induction each generalizing place with
  | nil => exact .none
  | cons head tail ih =>
    cases place with
    | zero => exact .some head
    | succ place => exact ih place

/-- What is read at the fields of a record are their values. -/
theorem SettlesTo.fields? (settles : SettlesTo document value) (names : List String) :
    Option.Rel (List.Forall₂ (Option.Rel SettlesTo)) (Decoder.fields? names document)
      (value.fields? names) := by
  cases settles.seen with
  | null | bool | number | string => exact .none
  | array each =>
    rw [Decoder.fields?, Json.fields?, each.length_eq]
    split
    · refine .some (List.forall₂_map_left_iff.mpr (List.forall₂_map_right_iff.mpr ?_))
      exact List.forall₂_same.mpr fun place _ => getElem?_related each place
    · exact .none
  | object distinct _ each =>
    rw [Decoder.fields?_ofMembers names distinct]
    refine .some (List.forall₂_map_left_iff.mpr (List.forall₂_map_right_iff.mpr ?_))
    exact List.forall₂_same.mpr fun name _ => each name

section Fields

variable {field : Option Document} {held : Option Json} {means : Json → α → Prop}

theorem Decoder.Tells.required (tells : decoder.Tells means) (same : Option.Rel SettlesTo field held)
    (depth : Nat) (x : α) :
    Decoder.required decoder (depth + 1) field = some x ↔
      ∃ value, held = some value ∧ means value x := by
  cases same with
  | none => simp [Decoder.required]
  | some settles =>
    simp only [Option.some.injEq, exists_eq_left']
    exact tells settles depth x

theorem Decoder.optional_eq_some_iff {depth : Nat} {x : Option α} :
    Decoder.optional decoder depth document = some x ↔
      (document = .null ∧ x = none) ∨
        (document ≠ .null ∧ ∃ y, decoder depth document = some y ∧ x = some y) := by
  unfold Decoder.optional
  split
  · simp [eq_comm]
  · next other =>
    rw [Option.map_eq_some_iff]
    simp [show document ≠ .null from other, eq_comm]

theorem Decoder.Tells.mayHold {encode : α → Json}
    (tells : decoder.Tells fun value x => value = encode x) (something : ∀ x, encode x ≠ .null)
    (same : Option.Rel SettlesTo field held) (depth : Nat) (x : Option α) :
    Decoder.defaulted none (Decoder.optional decoder) (depth + 1) field = some x ↔
      MayHold held (x.map encode) := by
  cases same with
  | none => cases x <;> simp [Decoder.defaulted, MayHold]
  | some settles =>
    simp only [Decoder.defaulted, Decoder.optional_eq_some_iff, ne_eq, settles.null_iff,
      tells settles depth]
    cases x with
    | none => simp [MayHold]
    | some y =>
      simp only [MayHold, Option.map_some, Option.some.injEq]
      constructor
      · rintro (⟨_, ⟨⟩⟩ | ⟨_, z, told, same⟩)
        rw [told, same]
      · rintro rfl
        exact .inr ⟨something y, y, rfl, rfl⟩

end Fields

end Decoders

end CodeAtlas.Json

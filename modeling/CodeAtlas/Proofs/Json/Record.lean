import CodeAtlas.Json.Decode

namespace CodeAtlas.Json

theorem lookup_cons_eq_ite {α : Type} (key asked : String) (value : α)
    (members : List (String × α)) :
    ((key, value) :: members).lookup asked =
      if asked = key then some value else members.lookup asked := by
  rw [List.lookup_cons]
  by_cases same : asked = key
  · rw [if_pos same, beq_iff_eq.mpr same]
  · rw [if_neg same, beq_false_of_ne same]

theorem lookup_insertMember {α : Type} (key asked : String) (value : α)
    (members : List (String × α)) :
    (insertMember key value members).lookup asked =
      if asked = key then some value else members.lookup asked := by
  induction members with
  | nil => rw [insertMember, lookup_cons_eq_ite]
  | cons member rest ih =>
    obtain ⟨other, kept⟩ := member
    unfold insertMember
    split
    · rw [lookup_cons_eq_ite]
    · split
      · next here =>
        subst here
        rw [lookup_cons_eq_ite, lookup_cons_eq_ite]
        split <;> rfl
      · next apart =>
        rw [lookup_cons_eq_ite, lookup_cons_eq_ite, ih]
        by_cases same : asked = other
        · subst same
          rw [if_pos rfl, if_neg (Ne.symm apart), if_pos rfl]
        · rw [if_neg same, if_neg same]

section Order

variable {α : Type} {key : String} {value : α} {members : List (String × α)}

/-- A member whose key is the greatest comes last. -/
theorem insertMember_append (greatest : ∀ member ∈ members, member.1 < key) :
    insertMember key value members = members ++ [(key, value)] := by
  induction members with
  | nil => rfl
  | cons member rest ih =>
    obtain ⟨below, others⟩ := List.forall_mem_cons.mp greatest
    have apart : key ≠ member.1 := fun same => String.lt_irrefl _ (same ▸ below)
    rw [insertMember, if_neg (String.lt_asymm below), if_neg apart, ih others]
    rfl

theorem foldl_insertMember {taken : List (String × α)}
    (sorted : (taken ++ members).Pairwise fun first second => first.1 < second.1) :
    members.foldl (fun sorted member => insertMember member.1 member.2 sorted) taken =
      taken ++ members := by
  induction members generalizing taken with
  | nil => exact (List.append_nil taken).symm
  | cons member members ih =>
    have greatest : ∀ other ∈ taken, other.1 < member.1 := fun other before =>
      (List.pairwise_append.mp sorted).2.2 other before member List.mem_cons_self
    rw [List.append_cons] at sorted ⊢
    rw [List.foldl_cons, insertMember_append greatest]
    exact ih sorted

/-- Members that stand by key stay where they are. -/
theorem sortMembers_of_sorted
    (sorted : members.Pairwise fun first second => first.1 < second.1) :
    sortMembers members = members :=
  foldl_insertMember sorted

end Order

def Document.ofMembers (members : List (String × Document)) : Document :=
  .object (members.map fun member => (some member.1, member.2))

namespace Decoder

variable {members : List (String × Document)}

theorem filter_of_not_mem {name : String} (absent : name ∉ members.map (·.1)) :
    members.filter (·.1 == name) = [] := by
  rw [List.filter_eq_nil_iff]
  intro member stated
  have other : member.1 ≠ name := fun same => absent (List.mem_map.mpr ⟨member, stated, same⟩)
  simpa using other

theorem filter_eq_lookup (distinct : (members.map (·.1)).Nodup) (name : String) :
    members.filter (·.1 == name) = ((members.lookup name).map (name, ·)).toList := by
  induction members with
  | nil => rfl
  | cons member members ih =>
    obtain ⟨key, value⟩ := member
    obtain ⟨fresh, distinct⟩ := List.nodup_cons.mp distinct
    rw [lookup_cons_eq_ite]
    by_cases same : name = key
    · subst same
      simp [filter_of_not_mem fresh]
    · simp [same, Ne.symm same, ih distinct]

theorem fields?_ofMembers (names : List String) (distinct : (members.map (·.1)).Nodup) :
    fields? names (.ofMembers members) = some (names.map fun name => members.lookup name) := by
  have keyed := List.mapM_pure (m := Option) (l := members) (f := id)
  rw [List.map_id] at keyed
  rw [Document.ofMembers, fields?, List.mapM_map]
  refine (congrArg (Option.bind · _) keyed).trans ?_
  refine (congrArg (List.mapM · names) (funext fun name => ?_)).trans
    (List.mapM_pure (m := Option))
  rw [filter_eq_lookup distinct name]
  cases members.lookup name <;> rfl

end Decoder

end CodeAtlas.Json

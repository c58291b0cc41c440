import Mathlib.Data.List.Forall2

namespace CodeAtlas

variable {α β γ : Type} {make : α → Option β} {items : List α} {made : List β}

theorem mapM_eq_some_iff :
    items.mapM make = some made ↔ items.Forall₂ (fun item one => make item = some one) made := by
  induction items generalizing made with
  | nil => simp [eq_comm]
  | cons item items ih =>
    simp only [List.mapM_cons, List.forall₂_cons_left_iff, Option.bind_eq_bind,
      Option.bind_eq_some_iff, ih, Option.pure_def, Option.some.injEq, eq_comm (b := made)]
    simp only [exists_and_left]

theorem mapM_isSome_iff : (items.mapM make).isSome ↔ ∀ item ∈ items, (make item).isSome := by
  induction items with
  | nil => simp
  | cons item items ih =>
    rw [List.mapM_cons, List.forall_mem_cons, ← ih]
    cases make item <;> cases items.mapM make <;> simp

theorem mapM_map (f : α → Option β) (g : β → γ) (items : List α) :
    items.mapM (fun item => (f item).map g) = (items.mapM f).map (List.map g) := by
  induction items with
  | nil => rfl
  | cons item rest ih =>
    rw [List.mapM_cons, List.mapM_cons, ih]
    cases f item with
    | none => rfl
    | some first => cases rest.mapM f <;> rfl

theorem exists_of_forall₂ {related : α → β → Prop} (all : items.Forall₂ related made) {one : β}
    (member : one ∈ made) : ∃ item ∈ items, related item one := by
  induction all with
  | nil => cases member
  | cons head tail ih =>
    rcases List.mem_cons.mp member with rfl | later
    · exact ⟨_, List.mem_cons_self, head⟩
    · obtain ⟨item, listed, same⟩ := ih later
      exact ⟨item, List.mem_cons_of_mem _ listed, same⟩

theorem exists_of_mem_mapM (run : items.mapM make = some made) {one : β} (member : one ∈ made) :
    ∃ item ∈ items, make item = some one :=
  exists_of_forall₂ (mapM_eq_some_iff.mp run) member

theorem exists_of_mapM (run : items.mapM make = some made) {item : α} (member : item ∈ items) :
    ∃ one, make item = some one := by
  have all : made.Forall₂ (fun one item => make item = some one) items :=
    .flip (mapM_eq_some_iff.mp run)
  obtain ⟨one, _, here⟩ := exists_of_forall₂ all member
  exact ⟨one, here⟩

/-- If what is made of each item has something once where the item has it, all that is made has it as
often as the items. -/
theorem countP_flatten_of_mapM {make : α → Option (List β)} {made : List (List β)} {p : α → Bool}
    {q : β → Bool} (run : items.mapM make = some made)
    (each : ∀ item ∈ items, ∀ part, make item = some part → part.countP q = if p item then 1 else 0) :
    made.flatten.countP q = items.countP p := by
  have all := mapM_eq_some_iff.mp run
  clear run
  induction all with
  | nil => rfl
  | @cons item part items made here _ ih =>
    rw [List.flatten_cons, List.countP_append, List.countP_cons, each item List.mem_cons_self part here,
      ih fun other member => each other (List.mem_cons_of_mem _ member), Nat.add_comm]

theorem flatMap_filter (keep : α → Bool) (make : α → List β) (items : List α) :
    (items.filter keep).flatMap make = items.flatMap fun item => if keep item then make item else [] := by
  induction items with
  | nil => rfl
  | cons item rest ih =>
    rw [List.filter_cons, List.flatMap_cons, ← ih]
    split <;> rfl

end CodeAtlas

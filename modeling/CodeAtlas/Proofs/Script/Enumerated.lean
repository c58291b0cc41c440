import CodeAtlas.Proofs.List.Made
import CodeAtlas.Proofs.Script.Address

namespace CodeAtlas.Script

variable {α β : Type} {found others : Address → α → Prop} {items more : List α}

/-- The items are all that is found, each once and in the order of the source. -/
def Enumerates (found : Address → α → Prop) (items : List α) : Prop :=
  ∃ listing : List (Address × α), listing.map (·.2) = items ∧
    (listing.map (·.1)).Pairwise (· < ·) ∧ ∀ item, item ∈ listing ↔ found item.1 item.2

namespace Enumerates

theorem nil (nothing : ∀ place item, ¬found place item) : Enumerates found [] :=
  ⟨[], rfl, .nil, fun item => iff_of_false List.not_mem_nil (nothing item.1 item.2)⟩

theorem congr (all : Enumerates found items)
    (same : ∀ place item, found place item ↔ others place item) : Enumerates others items := by
  obtain ⟨listing, listed, ordered, mem_iff⟩ := all
  exact ⟨listing, listed, ordered, fun item => (mem_iff item).trans (same item.1 item.2)⟩

theorem single (place : Address) (item : α) :
    Enumerates (fun other item' => other = place ∧ item' = item) [item] :=
  ⟨[(place, item)], rfl, List.pairwise_singleton _ _,
    fun _ => List.mem_singleton.trans Prod.ext_iff⟩

/-- What is found at one address is one item at most. -/
theorem ofOption (place : Address) (item? : Option α) :
    Enumerates (fun other item => other = place ∧ item? = some item) item?.toList := by
  cases item? with
  | none => exact nil fun _ _ ⟨_, found⟩ => nomatch found
  | some item =>
    refine (single place item).congr fun _ _ => and_congr_right fun _ => ?_
    rw [Option.some_inj, eq_comm]

theorem append (first : Enumerates found items) (second : Enumerates others more)
    (before : ∀ place other item item', found place item → others other item' → place < other) :
    Enumerates (fun place item => found place item ∨ others place item) (items ++ more) := by
  obtain ⟨listing, rfl, ordered, mem_iff⟩ := first
  obtain ⟨listing', rfl, ordered', mem_iff'⟩ := second
  refine ⟨listing ++ listing', List.map_append, ?_, fun item => ?_⟩
  · rw [List.map_append, List.pairwise_append]
    refine ⟨ordered, ordered', ?_⟩
    simp only [List.forall_mem_map]
    intro one member other member'
    exact before one.1 other.1 one.2 other.2 ((mem_iff one).mp member) ((mem_iff' other).mp member')
  · rw [List.mem_append, mem_iff, mem_iff']

theorem map (all : Enumerates found items) (make : α → β) :
    Enumerates (fun place item => ∃ one, found place one ∧ make one = item) (items.map make) := by
  obtain ⟨listing, rfl, ordered, mem_iff⟩ := all
  refine ⟨listing.map fun item => (item.1, make item.2), ?_, ?_, fun item => ?_⟩
  · rw [List.map_map, List.map_map]
    rfl
  · rw [List.map_map]
    exact ordered
  · rw [List.mem_map]
    constructor
    · rintro ⟨one, member, rfl⟩
      exact ⟨one.2, (mem_iff one).mp member, rfl⟩
    · rintro ⟨one, holds, made⟩
      exact ⟨(item.1, one), (mem_iff (item.1, one)).mpr holds, Prod.ext rfl made⟩

theorem mem_iff (all : Enumerates found items) {item : α} :
    item ∈ items ↔ ∃ place, found place item := by
  obtain ⟨listing, rfl, _, mem_iff⟩ := all
  rw [List.mem_map]
  constructor
  · rintro ⟨one, member, rfl⟩
    exact ⟨one.1, (mem_iff one).mp member⟩
  · rintro ⟨place, holds⟩
    exact ⟨(place, item), (mem_iff (place, item)).mpr holds, rfl⟩

/-- Whether anything is found at all is told by the list. -/
theorem eq_nil_iff (all : Enumerates found items) : items = [] ↔ ∀ place item, ¬found place item := by
  simp only [List.eq_nil_iff_forall_not_mem, all.mem_iff, not_exists]
  exact forall_comm

/-- Seen from a parent, the addresses begin with the step to the node. -/
theorem under (step : Nat) (all : Enumerates found items) :
    Enumerates (fun place item => ∃ rest, place = step :: rest ∧ found rest item) items := by
  obtain ⟨listing, rfl, ordered, mem_iff⟩ := all
  refine ⟨listing.map fun item => (step :: item.1, item.2), ?_, ?_, fun item => ?_⟩
  · rw [List.map_map]
    rfl
  · rw [List.map_map]
    rw [List.pairwise_map] at ordered ⊢
    exact ordered.imp fun before => List.cons_lt_cons_iff.mpr (.inr ⟨rfl, before⟩)
  · rw [List.mem_map]
    constructor
    · rintro ⟨one, member, rfl⟩
      exact ⟨one.1, rfl, (mem_iff one).mp member⟩
    · rintro ⟨rest, same, inside⟩
      exact ⟨(rest, item.2), (mem_iff (rest, item.2)).mpr inside, Prod.ext same.symm rfl⟩

section Children

variable {make : Node → List α} {foundIn : Nat → Node → Address → α → Prop} {nodes : List Node}

/-- What is found in nodes one after the other, which are the children of a node from one on. -/
theorem flatMap_from (start : Nat)
    (each : ∀ step node, nodes[step]? = some node → Enumerates (foundIn (start + step) node) (make node)) :
    Enumerates (fun place item => ∃ step node rest, place = (start + step) :: rest ∧
      nodes[step]? = some node ∧ foundIn (start + step) node rest item) (nodes.flatMap make) := by
  induction nodes generalizing start with
  | nil => exact nil fun _ _ ⟨_, _, _, _, listed, _⟩ => nomatch listed
  | cons node nodes ih =>
    have shift (step : Nat) : start + 1 + step = start + (step + 1) := by omega
    have here := each 0 node rfl
    have later := ih (start + 1) fun step child listed => by
      rw [shift]
      exact each (step + 1) child listed
    have all := (here.under start).append later fun place other _ _ first second => by
      obtain ⟨rest, rfl, _⟩ := first
      obtain ⟨step, _, rest', rfl, _⟩ := second
      exact List.cons_lt_cons_iff.mpr (.inl (by omega))
    refine all.congr fun place item => ⟨?_, ?_⟩
    · rintro (⟨rest, rfl, inside⟩ | ⟨step, child, rest, rfl, listed, inside⟩)
      · exact ⟨0, node, rest, rfl, rfl, inside⟩
      · rw [shift] at inside ⊢
        exact ⟨step + 1, child, rest, rfl, listed, inside⟩
    · rintro ⟨step, child, rest, rfl, listed, inside⟩
      cases step with
      | zero =>
        obtain rfl := Option.some.inj listed
        exact .inl ⟨rest, rfl, inside⟩
      | succ step =>
        rw [← shift] at inside ⊢
        exact .inr ⟨step, child, rest, rfl, listed, inside⟩

/-- What is found in the children of a node. -/
theorem flatMap (each : ∀ step node, nodes[step]? = some node → Enumerates (foundIn step node) (make node)) :
    Enumerates (fun place item => ∃ step node rest, place = step :: rest ∧
      nodes[step]? = some node ∧ foundIn step node rest item) (nodes.flatMap make) := by
  have all : Enumerates (fun place item => ∃ step node rest, place = (0 + step) :: rest ∧
      nodes[step]? = some node ∧ foundIn (0 + step) node rest item) (nodes.flatMap make) :=
    flatMap_from 0 fun step node listed => by
      rw [Nat.zero_add]
      exact each step node listed
  simpa only [Nat.zero_add] using all

/-- What is found in some children of a node. -/
theorem flatMap_filter (keep : Node → Bool)
    (each : ∀ step node, nodes[step]? = some node → Enumerates (foundIn step node) (make node)) :
    Enumerates (fun place item => ∃ step node rest, place = step :: rest ∧
        nodes[step]? = some node ∧ keep node = true ∧ foundIn step node rest item)
      ((nodes.filter keep).flatMap make) := by
  rw [CodeAtlas.flatMap_filter]
  refine flatMap fun step node listed => ?_
  split
  · next kept => exact (each step node listed).congr fun _ _ => (and_iff_right kept).symm
  · next out => exact nil fun _ _ ⟨kept, _⟩ => out kept

end Children

end Enumerates

end CodeAtlas.Script

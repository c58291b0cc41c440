import CodeAtlas.Proofs.Script.Address

namespace CodeAtlas.Script

instance : LE Position := ⟨fun first second => first.offset ≤ second.offset ∧ first.row ≤ second.row⟩

instance (first second : Position) : Decidable (first ≤ second) :=
  inferInstanceAs (Decidable (_ ∧ _))

namespace Node

/-- The children lie in the node, in order and without overlap. -/
def HoldsChildren (node : Node) : Prop :=
  (∀ child ∈ node.children, node.span.start ≤ child.span.start ∧ child.span.stop ≤ node.span.stop) ∧
    node.children.Pairwise fun first second => first.span.stop ≤ second.span.start

instance (node : Node) : Decidable node.HoldsChildren := inferInstanceAs (Decidable (_ ∧ _))

mutual

/-- A node and all below it. -/
def nodes : Node → List Node
  | mk kind role span children => mk kind role span children :: nodesBelow children

def nodesBelow : List Node → List Node
  | [] => []
  | child :: rest => nodes child ++ nodesBelow rest

end

/-- All nodes of the tree lie in those above them, in order and without overlap. -/
def IsPlaced (tree : Node) : Prop := ∀ node ∈ tree.nodes, node.HoldsChildren

instance (tree : Node) : Decidable tree.IsPlaced := inferInstanceAs (Decidable (∀ node ∈ _, _))

variable {tree node other : Node} {place place' rest : Address} {step : Nat}

theorem nodes_eq (node : Node) : node.nodes = node :: nodesBelow node.children := by
  cases node
  rw [nodes]
  rfl

theorem mem_nodesBelow_iff {children : List Node} :
    node ∈ nodesBelow children ↔ ∃ child ∈ children, node ∈ child.nodes := by
  induction children with
  | nil => simp [nodesBelow]
  | cons child rest ih => simp [nodesBelow, ih]

namespace IsPlaced

theorem holdsChildren (placed : tree.IsPlaced) : tree.HoldsChildren := by
  refine placed tree ?_
  rw [nodes_eq]
  exact List.mem_cons_self

theorem child (placed : tree.IsPlaced) (listed : tree.children[step]? = some node) : node.IsPlaced := by
  intro below member
  refine placed below ?_
  rw [nodes_eq]
  exact List.mem_cons_of_mem tree (mem_nodesBelow_iff.mpr ⟨node, List.mem_of_getElem? listed, member⟩)

/-- What is below a node lies in its rows. -/
theorem rows_within (placed : tree.IsPlaced) (here : tree.at? place = some node) :
    tree.firstRow ≤ node.firstRow ∧ node.lastRow ≤ tree.lastRow := by
  induction place generalizing tree with
  | nil =>
    obtain rfl := Option.some.inj here
    exact ⟨Nat.le_refl _, Nat.le_refl _⟩
  | cons step rest ih =>
    obtain ⟨next, listed, here⟩ := exists_child_of_at? here
    obtain ⟨starts, stops⟩ := placed.holdsChildren.1 next (List.mem_of_getElem? listed)
    obtain ⟨starts', stops'⟩ := ih (placed.child listed) here
    exact ⟨Nat.le_trans starts.2 starts', Nat.le_trans stops' stops.2⟩

theorem at? (placed : tree.IsPlaced) (here : tree.at? place = some node) : node.IsPlaced := by
  induction place generalizing tree with
  | nil =>
    obtain rfl := Option.some.inj here
    exact placed
  | cons step rest ih =>
    obtain ⟨next, listed, here⟩ := exists_child_of_at? here
    exact ih (placed.child listed) here

/-- A child begins in no earlier row than all before it end in. -/
theorem lastRow_le {i j : Nat} {first second : Node} (placed : tree.IsPlaced) (before : i < j)
    (listed : tree.children[i]? = some first) (listed' : tree.children[j]? = some second) :
    first.lastRow ≤ second.firstRow := by
  obtain ⟨bound, rfl⟩ := List.getElem?_eq_some_iff.mp listed
  obtain ⟨bound', rfl⟩ := List.getElem?_eq_some_iff.mp listed'
  exact (List.pairwise_iff_getElem.mp placed.holdsChildren.2 i j bound bound' before).2

/-- What stands at a later address begins in no earlier row. -/
theorem firstRow_le (placed : tree.IsPlaced) (before : place < place') (here : tree.at? place = some node)
    (there : tree.at? place' = some other) : node.firstRow ≤ other.firstRow := by
  induction place generalizing tree place' with
  | nil =>
    obtain rfl := Option.some.inj here
    exact (placed.rows_within there).1
  | cons step rest ih =>
    cases place' with
    | nil => exact absurd before (List.not_lt_nil _)
    | cons step' rest' =>
      obtain ⟨first, listed, here⟩ := exists_child_of_at? here
      obtain ⟨second, listed', there⟩ := exists_child_of_at? there
      rcases List.cons_lt_cons_iff.mp before with earlier | ⟨rfl, below⟩
      · calc
          node.firstRow ≤ node.lastRow := node.span.ordered
          _ ≤ first.lastRow := ((placed.child listed).rows_within here).2
          _ ≤ second.firstRow := placed.lastRow_le earlier listed listed'
          _ ≤ other.firstRow := ((placed.child listed').rows_within there).1
      · obtain rfl := Option.some.inj (listed.symm.trans listed')
        exact ih (placed.child listed) below here there

/-- What is listed in the order of addresses stands in the order of the lines in which it begins. -/
theorem pairwise_lines {α : Type} {listing : List (Address × α)} {line : α → Nat}
    (placed : tree.IsPlaced) (ordered : (listing.map (·.1)).Pairwise (· < ·))
    (begins : ∀ item ∈ listing, ∃ node, tree.at? item.1 = some node ∧ line item.2 = node.firstRow + 1) :
    (listing.map (·.2)).Pairwise fun first second => line first ≤ line second := by
  rw [List.pairwise_map] at ordered ⊢
  refine ordered.imp_of_mem fun {first second} member member' before => ?_
  obtain ⟨node, here, line⟩ := begins first member
  obtain ⟨other, there, line'⟩ := begins second member'
  rw [line, line']
  exact Nat.succ_le_succ (placed.firstRow_le before here there)

end IsPlaced

end Node

/-- In a list that is in the order of addresses, what stands at an earlier one comes first. -/
theorem index_lt_of_lt {α : Type} {listing : List (Address × α)} {i j : Nat} {first second : Address × α}
    (ordered : (listing.map (·.1)).Pairwise (· < ·)) (listed : listing[i]? = some first)
    (listed' : listing[j]? = some second) (before : first.1 < second.1) : i < j := by
  obtain ⟨bound, rfl⟩ := List.getElem?_eq_some_iff.mp listed
  obtain ⟨bound', rfl⟩ := List.getElem?_eq_some_iff.mp listed'
  rw [List.pairwise_map] at ordered
  by_contra late
  rcases Nat.lt_or_eq_of_le (Nat.le_of_not_lt late) with earlier | rfl
  · exact List.lt_asymm before (List.pairwise_iff_getElem.mp ordered j i bound' bound earlier)
  · exact List.lt_irrefl _ before

end CodeAtlas.Script

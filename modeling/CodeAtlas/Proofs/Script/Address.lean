import CodeAtlas.Script.Tree
import Mathlib.Data.List.Basic

namespace CodeAtlas.Script

/-- The way from a node down to another one: at each step, how many children stand before the one to
go to. -/
abbrev Address := List Nat

namespace Address

variable {start first second place : Address} {i j : Nat}

theorem lt_below (place : Address) (step : Nat) (rest : Address) : place < place ++ step :: rest := by
  have longer : place ++ [] < place ++ step :: rest := List.append_left_lt (List.nil_lt_cons step rest)
  rwa [List.append_nil] at longer

/-- All that is below a child comes before all that is below a later one. -/
theorem lt_of_lt (before : i < j) (within : start ++ [i] <+: first)
    (within' : start ++ [j] <+: second) : first < second := by
  obtain ⟨rest, rfl⟩ := within
  obtain ⟨other, rfl⟩ := within'
  rw [List.append_assoc, List.append_assoc]
  exact List.append_left_lt (List.cons_lt_cons_iff.mpr (.inl before))

theorem step_unique (within : start ++ [i] <+: place) (within' : start ++ [j] <+: place) : i = j := by
  obtain ⟨rest, rfl⟩ := within
  obtain ⟨other, same⟩ := within'
  simp only [List.append_assoc, List.append_cancel_left_eq] at same
  exact (List.cons.inj same).1.symm

theorem prefix_antisymm (within : first <+: second) (within' : second <+: first) : first = second :=
  within.eq_of_length (Nat.le_antisymm within.length_le within'.length_le)

/-- The node at the first address is around the one at the second. -/
def Encloses (outer place : Address) : Prop := outer <+: place ∧ outer ≠ place

theorem prefix_iff : start <+: place ↔ place = start ∨ start.Encloses place := by
  constructor
  · intro within
    by_cases same : start = place
    · exact .inl same.symm
    · exact .inr ⟨within, same⟩
  · rintro (rfl | around)
    · exact List.prefix_refl place
    · exact around.1

theorem encloses_snoc (outer place : Address) (step : Nat) :
    Encloses outer (place ++ [step]) ↔ outer <+: place := by
  constructor
  · rintro ⟨within, other⟩
    exact (List.prefix_concat_iff.mp within).resolve_left other
  · intro within
    refine ⟨within.trans (List.prefix_append place [step]), fun same => ?_⟩
    have length := within.length_le
    rw [same, List.length_append, List.length_singleton] at length
    omega

/-- What is below a node is in one of its children. -/
theorem encloses_iff : start.Encloses place ↔ ∃ step, start ++ [step] <+: place := by
  constructor
  · rintro ⟨⟨rest, rfl⟩, other⟩
    cases rest with
    | nil => exact absurd (List.append_nil start).symm other
    | cons step rest => exact ⟨step, rest, by rw [List.append_assoc]; rfl⟩
  · rintro ⟨step, rest, rfl⟩
    refine ⟨(List.prefix_append start [step]).trans (List.prefix_append _ rest), ?_⟩
    rw [List.append_assoc]
    exact fun same => List.cons_ne_nil step rest (List.self_eq_append_right.mp same)

theorem Encloses.lt (around : start.Encloses place) : start < place := by
  obtain ⟨step, rest, rfl⟩ := encloses_iff.mp around
  rw [List.append_assoc]
  exact lt_below start step rest

end Address

namespace Node

variable {node child : Node} {start rest : Address} {step : Nat}

/-- The node that an address leads to. -/
def at? : Node → Address → Option Node
  | node, [] => some node
  | node, step :: rest => node.children[step]?.bind fun child => child.at? rest

theorem at?_append (tree : Node) (start rest : Address) :
    tree.at? (start ++ rest) = (tree.at? start).bind fun node => node.at? rest := by
  induction start generalizing tree with
  | nil => rfl
  | cons step start ih =>
    rw [List.cons_append, at?, at?]
    cases tree.children[step]? with
    | none => rfl
    | some child => exact ih child

theorem at?_of_at? {tree : Node} (here : tree.at? start = some node) (rest : Address) :
    tree.at? (start ++ rest) = node.at? rest := by
  rw [at?_append, here]
  rfl

theorem at?_child {tree : Node} (here : tree.at? start = some node)
    (listed : node.children[step]? = some child) : tree.at? (start ++ [step]) = some child := by
  rw [at?_of_at? here, at?, listed]
  rfl

theorem at?_singleton (node : Node) (step : Nat) : node.at? [step] = node.children[step]? := by
  rw [at?]
  cases node.children[step]? <;> rfl

theorem at?_grandchild {inner : Nat} {grandchild : Node} (listed : node.children[step]? = some child)
    (listed' : child.children[inner]? = some grandchild) : node.at? [step, inner] = some grandchild := by
  rw [at?, listed, Option.bind_some, at?_singleton, listed']

/-- What is reached below a node is reached through a child of it. -/
theorem exists_child_of_at? (found : node.at? (step :: rest) = some child) :
    ∃ next, node.children[step]? = some next ∧ next.at? rest = some child :=
  Option.bind_eq_some_iff.mp found

/-- How many children stand before the one that plays a part. -/
def place? (node : Node) (role : Role) : Option Nat :=
  node.children.findIdx? (·.role == some role)

/-- A child plays a part if it is the first that has the role. -/
theorem child?_eq_some_iff {role : Role} :
    node.child? role = some child ↔
      ∃ step, node.place? role = some step ∧ node.children[step]? = some child := by
  rw [child?, List.find?_eq_bind_findIdx?_getElem?]
  exact Option.bind_eq_some_iff

theorem exists_of_place? {role : Role} (found : node.place? role = some step) :
    ∃ child, node.children[step]? = some child := by
  obtain ⟨bound, _⟩ := List.findIdx?_eq_some_iff_getElem.mp found
  exact ⟨_, List.getElem?_eq_getElem bound⟩

/-- What holds of a node if it holds of its children holds of all nodes. -/
theorem induction {motive : Node → Prop}
    (node : ∀ node, (∀ child ∈ node.children, motive child) → motive node) :
    ∀ tree, motive tree
  | .mk kind role span children =>
    node (.mk kind role span children) fun child (_listed : child ∈ children) => induction node child
decreasing_by
  have smaller := List.sizeOf_lt_of_mem _listed
  rw [mk.sizeOf_spec]
  omega

end Node

end CodeAtlas.Script

import CodeAtlas.Proofs.Disk.Ways
import CodeAtlas.Proofs.List.Made
import CodeAtlas.Scan.Files

namespace CodeAtlas

namespace Tree

variable {tree : Tree} {root folder : Names} {α β : Type} {holds : α → Prop}

/-- An action that leaves the tree as it is, and whose answer has a property. -/
structure Tells (tree : Tree) (action : StateM Tree α) (holds : α → Prop) : Prop where
  same : (action.run tree).2 = tree
  answer : holds (action.run tree).1

namespace Tells

theorem bind {action : StateM Tree α} {next : α → StateM Tree β} {holds' : β → Prop}
    (first : Tells tree action holds)
    (second : ∀ answer, holds answer → Tells tree (next answer) holds') :
    Tells tree (action >>= next) holds' := by
  obtain ⟨same, answer⟩ := second _ first.answer
  have whole : (action >>= next).run tree = (next (action.run tree).1).run tree :=
    congrArg (next (action.run tree).1).run first.same
  exact ⟨whole ▸ same, whole ▸ answer⟩

theorem pure {answer : α} (holding : holds answer) : Tells tree (pure answer) holds :=
  ⟨rfl, holding⟩

theorem get : Tells tree get fun found => found = tree :=
  ⟨rfl, rfl⟩

theorem ite {condition : Prop} [Decidable condition] {action other : StateM Tree α}
    (first : Tells tree action holds) (second : Tells tree other holds) :
    Tells tree (if condition then action else other) holds := by
  split
  · exact first
  · exact second

theorem mapM {items : List α} {action : α → StateM Tree β} {holds : α → β → Prop}
    (each : ∀ item ∈ items, Tells tree (action item) (holds item)) :
    Tells tree (items.mapM action) (items.Forall₂ holds) := by
  induction items with
  | nil => exact pure .nil
  | cons item items ih =>
    obtain ⟨first, others⟩ := List.forall_mem_cons.mp each
    rw [List.mapM_cons]
    exact first.bind fun answer holding => (ih others).bind fun answers all =>
      pure (.cons holding all)

end Tells

section Rooted

variable (sound : tree.Sound) (rooted : tree.isFolder [] = true)
include sound rooted

end Rooted

end Tree

end CodeAtlas

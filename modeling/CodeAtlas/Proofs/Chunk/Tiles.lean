namespace CodeAtlas

/-- The items span the lines from `first` to `last`. Each begins where the one before it ends, and
none is empty. -/
inductive Tiles {α : Type} (span : α → Nat × Nat) : Nat → Nat → List α → Prop
  | done (last : Nat) : Tiles span (last + 1) last []
  | next {first last : Nat} {item : α} {rest : List α} :
      (span item).1 = first → first ≤ (span item).2 → Tiles span ((span item).2 + 1) last rest →
      Tiles span first last (item :: rest)

namespace Tiles

variable {α β : Type} {span : α → Nat × Nat} {part : β → Nat × Nat} {first last : Nat}
  {items : List α}

theorem first_le (tiles : Tiles span first last items) : first ≤ last + 1 := by
  induction tiles with
  | done => exact Nat.le_refl _
  | next _ nonempty _ ih => omega

theorem append {middle : Nat} {others : List α} (tiles : Tiles span first middle items)
    (more : Tiles span (middle + 1) last others) : Tiles span first last (items ++ others) := by
  induction tiles with
  | done => exact more
  | next starts nonempty _ ih => exact .next starts nonempty (ih more)

theorem map {f : α → β} (same : ∀ item, part (f item) = span item)
    (tiles : Tiles span first last items) : Tiles part first last (items.map f) := by
  induction tiles with
  | done => exact .done _
  | next starts nonempty _ ih =>
    refine .next (by rw [same, starts]) (by rw [same]; exact nonempty) ?_
    rw [same]
    exact ih

theorem bounds (tiles : Tiles span first last items) {item : α} (member : item ∈ items) :
    first ≤ (span item).1 ∧ (span item).1 ≤ (span item).2 ∧ (span item).2 ≤ last := by
  induction tiles with
  | done => cases member
  | next starts nonempty rest ih =>
    have beyond := rest.first_le
    rcases List.mem_cons.mp member with rfl | later
    · omega
    · have inside := ih later
      omega

theorem apart (tiles : Tiles span first last items) :
    items.Pairwise fun item other => (span item).2 < (span other).1 := by
  induction tiles with
  | done => exact .nil
  | next _ _ rest ih =>
    refine List.pairwise_cons.mpr ⟨fun other member => ?_, ih⟩
    exact (rest.bounds member).1

theorem pairwise (tiles : Tiles span first last items) :
    items.Pairwise fun item other => (span item).1 < (span other).1 := by
  refine tiles.apart.imp_of_mem fun {item other} member _ before => ?_
  exact Nat.lt_of_le_of_lt (tiles.bounds member).2.1 before

/-- If every item is cut into parts that span it, then all parts together span what the items do. -/
theorem mapM {cut : α → Option (List β)} {good : β → Prop} (tiles : Tiles span first last items)
    (parts : ∀ item ∈ items, ∃ pieces, cut item = some pieces ∧
      Tiles part (span item).1 (span item).2 pieces ∧ ∀ piece ∈ pieces, good piece) :
    ∃ all, items.mapM cut = some all ∧ Tiles part first last all.flatten ∧
      ∀ piece ∈ all.flatten, good piece := by
  induction tiles with
  | done last => exact ⟨[], rfl, .done _, by simp⟩
  | @next _ _ item rest starts nonempty _ ih =>
    obtain ⟨pieces, cutItem, tiled, goodPieces⟩ := parts item (List.mem_cons_self ..)
    obtain ⟨all, cutRest, tiledRest, goodRest⟩ :=
      ih fun other member => parts other (List.mem_cons_of_mem _ member)
    refine ⟨pieces :: all, ?_, ?_, ?_⟩
    · simp [cutItem, cutRest]
    · subst starts
      exact tiled.append tiledRest
    · intro piece member
      rcases List.mem_append.mp member with here | there
      · exact goodPieces piece here
      · exact goodRest piece there

/-- The lines of all items, one after the other, are the lines from the first to the last. -/
theorem flatMap_range (tiles : Tiles span first last items) :
    items.flatMap (fun item => List.range' (span item).1 ((span item).2 + 1 - (span item).1)) =
      List.range' first (last + 1 - first) := by
  induction tiles with
  | done => simp
  | @next first last item rest starts nonempty tail ih =>
    obtain ⟨length, itemEnd : (span item).2 + 1 = first + length⟩ :=
      Nat.exists_eq_add_of_le (Nat.le_succ_of_le nonempty)
    obtain ⟨others, wholeEnd⟩ := Nat.exists_eq_add_of_le tail.first_le
    rw [List.flatMap_cons, ih, wholeEnd, itemEnd, starts]
    rw [Nat.add_sub_cancel_left, Nat.add_sub_cancel_left, Nat.add_assoc, Nat.add_sub_cancel_left]
    exact List.range'_append_1

/-- Every line from the first to the last lies in exactly one item. -/
theorem countP_eq_one (tiles : Tiles span first last items) {line : Nat} {inside : α → Bool}
    (spanned : ∀ item ∈ items, inside item ↔ (span item).1 ≤ line ∧ line ≤ (span item).2)
    (lower : first ≤ line) (upper : line ≤ last) : items.countP inside = 1 := by
  induction tiles with
  | done => omega
  | @next first last item rest starts nonempty tail ih =>
    have here := spanned item (List.mem_cons_self ..)
    have there : ∀ other ∈ rest, inside other ↔ (span other).1 ≤ line ∧ line ≤ (span other).2 :=
      fun other member => spanned other (List.mem_cons_of_mem _ member)
    rw [List.countP_cons]
    by_cases before : line ≤ (span item).2
    · have nowhere : rest.countP inside = 0 := by
        rw [List.countP_eq_zero]
        intro other member
        have beyond := (tail.bounds member).1
        rw [there other member]
        omega
      rw [nowhere, if_pos (here.mpr ⟨by omega, before⟩)]
    · rw [ih there (by omega) upper, if_neg (by rw [here]; omega)]

end Tiles

end CodeAtlas

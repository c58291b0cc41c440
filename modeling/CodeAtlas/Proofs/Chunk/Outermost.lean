import CodeAtlas.Proofs.Chunk.Cut
import Mathlib.Data.List.Induction
import Mathlib.Data.List.Pairwise

namespace CodeAtlas

namespace Declared

/-- The line is one of the declaration. -/
def Covers (symbol : Declared) (line : Nat) : Prop :=
  symbol.firstLine ≤ line ∧ line ≤ symbol.lastLine

def lineCount (symbol : Declared) : Nat := symbol.lastLine + 1 - symbol.firstLine

/-- The lines of the second declaration are lines of the first. -/
def Spans (outer inner : Declared) : Prop :=
  outer.firstLine ≤ inner.firstLine ∧ inner.lastLine ≤ outer.lastLine

/-- The first declaration ends before the second begins. -/
def Precedes (first second : Declared) : Prop := first.lastLine < second.firstLine

/-- The declarations are apart or one is in the other. -/
def Fits (first second : Declared) : Prop :=
  first.Precedes second ∨ second.Precedes first ∨ first.Spans second ∨ second.Spans first

instance (outer inner : Declared) : Decidable (outer.Spans inner) :=
  inferInstanceAs (Decidable (_ ∧ _))

instance (first second : Declared) : Decidable (first.Precedes second) :=
  inferInstanceAs (Decidable (_ < _))

instance (first second : Declared) : Decidable (first.Fits second) :=
  inferInstanceAs (Decidable (_ ∨ _ ∨ _ ∨ _))

def sameLines (first second : Declared) : Bool :=
  first.firstLine == second.firstLine && first.lastLine == second.lastLine

/-- Declarations in any order, each with lines, any two of which are apart or nested. -/
structure Nested (symbols : List Declared) : Prop where
  lines : ∀ symbol ∈ symbols, 1 ≤ symbol.firstLine ∧ symbol.firstLine ≤ symbol.lastLine
  fits : ∀ first ∈ symbols, ∀ second ∈ symbols, first.Fits second

end Declared

namespace Chunk

open Declared (Nested)

variable {symbols seen kept : List Declared} {symbol : Declared} {line : Nat}

/-- The declaration has the most lines of those that cover the line, and is the first of the list
that has so many. -/
inductive IsOutermostAt (line : Nat) : List Declared → Declared → Prop
  | intro {before after : List Declared} {symbol : Declared} :
      symbol.Covers line →
      (∀ other ∈ before, other.Covers line → other.lineCount < symbol.lineCount) →
      (∀ other ∈ after, other.Covers line → other.lineCount ≤ symbol.lineCount) →
      IsOutermostAt line (before ++ symbol :: after) symbol

/-- What is kept of the declarations seen so far: every one of these is in one that is kept, and of
those with the same lines the first is kept. -/
structure KeepsOuter (seen kept : List Declared) : Prop where
  apart : kept.Pairwise Declared.Precedes
  spanned : ∀ symbol ∈ seen, ∃ outer ∈ kept, outer.Spans symbol
  first : ∀ outer ∈ kept, seen.find? outer.sameLines = some outer

namespace KeepsOuter

theorem mem_seen (keeps : KeepsOuter seen kept) (member : symbol ∈ kept) : symbol ∈ seen :=
  List.mem_of_find?_eq_some (keeps.first symbol member)

theorem eq_nil (keeps : KeepsOuter seen []) : seen = [] := by
  refine List.eq_nil_iff_forall_not_mem.mpr fun symbol member => ?_
  obtain ⟨_, nothing, _⟩ := keeps.spanned symbol member
  cases nothing

/-- No two declarations that are kept have a line in common. -/
theorem eq_of_covers (keeps : KeepsOuter seen kept) {other : Declared} (member : symbol ∈ kept)
    (member' : other ∈ kept) (covers : symbol.Covers line) (covers' : other.Covers line) :
    symbol = other := by
  have clash : kept.Pairwise fun first second =>
      ¬∃ line, first.Covers line ∧ second.Covers line := by
    refine keeps.apart.imp fun {first second} before => ?_
    rintro ⟨line, inFirst, inSecond⟩
    have left : line ≤ first.lastLine := inFirst.2
    have right : second.firstLine ≤ line := inSecond.1
    have between : first.lastLine < second.firstLine := before
    omega
  have symmetric : Std.Symm fun first second : Declared =>
      ¬∃ line, first.Covers line ∧ second.Covers line :=
    ⟨fun _ _ none ⟨line, left, right⟩ => none ⟨line, right, left⟩⟩
  by_contra different
  exact clash.forall member member' different ⟨line, covers, covers'⟩

/-- The declaration that was kept last ends last. -/
theorem lastLine_le (keeps : KeepsOuter seen (kept ++ [symbol]))
    (lines : ∀ symbol ∈ seen, symbol.firstLine ≤ symbol.lastLine) :
    ∀ outer ∈ kept ++ [symbol], outer.lastLine ≤ symbol.lastLine := by
  have last := lines symbol (keeps.mem_seen (List.mem_append_right _ List.mem_cons_self))
  intro outer member
  rcases List.mem_append.mp member with before | here
  · have apart : outer.lastLine < symbol.firstLine :=
      (List.pairwise_append.mp keeps.apart).2.2 outer before symbol List.mem_cons_self
    omega
  · exact Nat.le_of_eq (congrArg Declared.lastLine (List.mem_singleton.mp here))

theorem skip {outer : Declared} (keeps : KeepsOuter seen kept) (member : outer ∈ kept)
    (spans : outer.Spans symbol) : KeepsOuter (seen ++ [symbol]) kept := by
  refine ⟨keeps.apart, ?_, fun other listed => ?_⟩
  · refine List.forall_mem_append.mpr ⟨keeps.spanned, ?_⟩
    exact List.forall_mem_singleton.mpr ⟨outer, member, spans⟩
  · rw [List.find?_append, keeps.first other listed]
    rfl

theorem push (keeps : KeepsOuter seen kept)
    (beyond : ∀ outer ∈ kept, outer.Precedes symbol ∧ outer.lastLine < symbol.lastLine) :
    KeepsOuter (seen ++ [symbol]) (kept ++ [symbol]) := by
  refine ⟨?_, ?_, ?_⟩
  · refine List.pairwise_append.mpr ⟨keeps.apart, List.pairwise_singleton _ _, ?_⟩
    intro outer member last here
    rw [List.mem_singleton.mp here]
    exact (beyond outer member).1
  · refine List.forall_mem_append.mpr ⟨fun other member => ?_, ?_⟩
    · obtain ⟨outer, listed, spans⟩ := keeps.spanned other member
      exact ⟨outer, List.mem_append_left _ listed, spans⟩
    · exact List.forall_mem_singleton.mpr
        ⟨symbol, List.mem_append_right _ List.mem_cons_self, Nat.le_refl _, Nat.le_refl _⟩
  · refine List.forall_mem_append.mpr ⟨fun outer member => ?_, List.forall_mem_singleton.mpr ?_⟩
    · rw [List.find?_append, keeps.first outer member]
      rfl
    · have unseen : seen.find? symbol.sameLines = none := by
        refine List.find?_eq_none.mpr fun other member same => ?_
        obtain ⟨outer, listed, spans⟩ := keeps.spanned other member
        have ends : other.lastLine ≤ outer.lastLine := spans.2
        have shorter := (beyond outer listed).2
        have equal : symbol.lastLine = other.lastLine :=
          beq_iff_eq.mp (Bool.and_eq_true_iff.mp same).2
        omega
      rw [List.find?_append, unseen]
      simp [Declared.sameLines]

/-- One more declaration, which does not begin before those seen so far. -/
theorem keepOuter (keeps : KeepsOuter seen kept)
    (lines : ∀ other ∈ seen, other.firstLine ≤ other.lastLine)
    (sorted : ∀ other ∈ seen, startsBefore other symbol = true)
    (fits : ∀ other ∈ seen, other.Fits symbol) :
    KeepsOuter (seen ++ [symbol]) (Chunk.keepOuter kept symbol) := by
  rcases List.eq_nil_or_concat kept with rfl | ⟨front, outer, rfl⟩
  · obtain rfl := keeps.eq_nil
    exact keeps.push fun _ nothing => nomatch nothing
  · rw [List.concat_eq_append] at keeps ⊢
    have last : outer ∈ front ++ [outer] := List.mem_append_right _ List.mem_cons_self
    have starts (other : Declared) (member : other ∈ front ++ [outer]) :
        other.firstLine < symbol.firstLine ∨
          other.firstLine = symbol.firstLine ∧ symbol.lastLine ≤ other.lastLine := by
      simpa [startsBefore] using sorted other (keeps.mem_seen member)
    unfold Chunk.keepOuter
    rw [List.getLast?_concat]
    dsimp only
    split
    · next inside =>
      refine keeps.skip last ⟨?_, inside⟩
      have := starts outer last
      omega
    · next ends =>
      refine keeps.push fun other member => ?_
      have upTo := keeps.lastLine_le lines other member
      have begins := starts other member
      have fit := fits other (keeps.mem_seen member)
      simp only [Declared.Fits, Declared.Precedes, Declared.Spans] at fit ⊢
      omega

end KeepsOuter

theorem foldl_keepOuter (lines : ∀ symbol ∈ seen, symbol.firstLine ≤ symbol.lastLine)
    (fits : ∀ first ∈ seen, ∀ second ∈ seen, first.Fits second)
    (sorted : seen.Pairwise fun first second => startsBefore first second = true) :
    KeepsOuter seen (seen.foldl keepOuter []) := by
  induction seen using List.reverseRecOn with
  | nil => exact ⟨.nil, by rintro _ ⟨⟩, by rintro _ ⟨⟩⟩
  | append_singleton seen symbol ih =>
    have last : symbol ∈ seen ++ [symbol] := List.mem_append_right _ List.mem_cons_self
    have earlier {other : Declared} (member : other ∈ seen) : other ∈ seen ++ [symbol] :=
      List.mem_append_left _ member
    obtain ⟨before, _, between⟩ := List.pairwise_append.mp sorted
    have keeps := ih (fun other member => lines other (earlier member))
      (fun first inFirst second inSecond => fits first (earlier inFirst) second (earlier inSecond))
      before
    rw [List.foldl_append]
    exact keeps.keepOuter (fun other member => lines other (earlier member))
      (fun other member => between other member symbol List.mem_cons_self)
      (fun other member => fits other (earlier member) symbol last)

section Sorted

theorem startsBefore_trans (first second third : Declared)
    (before : startsBefore first second = true) (before' : startsBefore second third = true) :
    startsBefore first third = true := by
  simp only [startsBefore, Bool.or_eq_true, Bool.and_eq_true, decide_eq_true_eq, beq_iff_eq]
    at before before' ⊢
  omega

theorem startsBefore_total (first second : Declared) :
    (startsBefore first second || startsBefore second first) = true := by
  simp only [startsBefore, Bool.or_eq_true, Bool.and_eq_true, decide_eq_true_eq, beq_iff_eq]
  omega

/-- Sorting keeps the order of declarations with the same lines. -/
theorem filter_mergeSort (symbols : List Declared) (outer : Declared) :
    (symbols.mergeSort startsBefore).filter outer.sameLines = symbols.filter outer.sameLines := by
  have alike : (symbols.filter outer.sameLines).Pairwise
      fun first second => startsBefore first second = true := by
    refine List.pairwise_of_forall_mem_list fun first inFirst second inSecond => ?_
    have same := (List.mem_filter.mp inFirst).2
    have same' := (List.mem_filter.mp inSecond).2
    simp only [Declared.sameLines, startsBefore, Bool.or_eq_true, Bool.and_eq_true,
      decide_eq_true_eq, beq_iff_eq] at same same' ⊢
    omega
  have sublist : (symbols.filter outer.sameLines).Sublist (symbols.mergeSort startsBefore) :=
    List.sublist_mergeSort startsBefore_trans startsBefore_total alike List.filter_sublist
  have kept := sublist.filter outer.sameLines
  rw [List.filter_filter] at kept
  simp only [Bool.and_self] at kept
  have perm := (List.mergeSort_perm symbols startsBefore).filter outer.sameLines
  exact (kept.eq_of_length perm.length_eq.symm).symm

theorem find?_mergeSort (symbols : List Declared) (outer : Declared) :
    (symbols.mergeSort startsBefore).find? outer.sameLines = symbols.find? outer.sameLines := by
  rw [← List.head?_filter, ← List.head?_filter, filter_mergeSort]

end Sorted

theorem keepsOuter_outermost (nested : Nested symbols) :
    KeepsOuter symbols (outermost symbols) := by
  have mem {symbol : Declared} : symbol ∈ symbols.mergeSort startsBefore ↔ symbol ∈ symbols :=
    List.mem_mergeSort
  have keeps : KeepsOuter (symbols.mergeSort startsBefore) (outermost symbols) := by
    refine foldl_keepOuter (fun symbol member => (nested.lines symbol (mem.mp member)).2) ?_ ?_
    · exact fun first inFirst second inSecond =>
        nested.fits first (mem.mp inFirst) second (mem.mp inSecond)
    · exact List.pairwise_mergeSort startsBefore_trans startsBefore_total symbols
  refine ⟨keeps.apart, fun symbol member => keeps.spanned symbol (mem.mpr member), ?_⟩
  intro outer member
  rw [← find?_mergeSort]
  exact keeps.first outer member

/-- A declaration that is kept is the outermost one at each of its lines. -/
theorem KeepsOuter.isOutermostAt (keeps : KeepsOuter symbols kept) (member : symbol ∈ kept)
    (covers : symbol.Covers line) : IsOutermostAt line symbols symbol := by
  have spans (other : Declared) (listed : other ∈ symbols) (covered : other.Covers line) :
      symbol.Spans other := by
    obtain ⟨outer, isKept, spans⟩ := keeps.spanned other listed
    have reaches : outer.Covers line := 
      ⟨Nat.le_trans spans.1 covered.1, Nat.le_trans covered.2 spans.2⟩
    rwa [keeps.eq_of_covers member isKept covers reaches]
  obtain ⟨_, before, after, rfl, different⟩ :=
    List.find?_eq_some_iff_append.mp (keeps.first symbol member)
  refine .intro covers (fun other listed covered => ?_) fun other listed covered => ?_
  · have inside := spans other (List.mem_append_left _ listed) covered
    have other' := different other listed
    simp only [Declared.Spans, Declared.Covers, Declared.lineCount, Declared.sameLines,
      Bool.not_eq_true', Bool.and_eq_false_iff, beq_eq_false_iff_ne] at *
    omega
  · have inside := spans other (List.mem_append_right _ (List.mem_cons_of_mem _ listed)) covered
    simp only [Declared.Spans, Declared.lineCount] at *
    omega

end Chunk

end CodeAtlas

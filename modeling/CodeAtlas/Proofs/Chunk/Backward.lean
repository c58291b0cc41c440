import Mathlib.Algebra.Group.Nat.Defs
import CodeAtlas.Proofs.Chunk.Counted
import CodeAtlas.Proofs.Chunk.Outermost
import CodeAtlas.Proofs.Text.Trim

namespace CodeAtlas

namespace Declared

/-- The declaration ends more than a line before it begins. -/
def RunsBack (symbol : Declared) : Prop := symbol.lastLine + 1 < symbol.firstLine

/-- Another declaration begins no later and ends no earlier, and not both in the same lines. -/
def IsHidden (symbols : List Declared) (symbol : Declared) : Prop :=
  ∃ other ∈ symbols, other.Spans symbol ∧ ¬symbol.Spans other

instance (symbol : Declared) : Decidable symbol.RunsBack := inferInstanceAs (Decidable (_ < _))

instance (symbols : List Declared) (symbol : Declared) : Decidable (symbol.IsHidden symbols) :=
  inferInstanceAs (Decidable (∃ other ∈ symbols, _))

end Declared

namespace Chunk

variable {symbols seen kept : List Declared} {symbol : Declared} {count next line size : Nat}

section Outermost

/-- What is kept of any declarations seen so far, however their lines lie: each of them is spanned by one
that is kept, and those that are kept end one after the other. -/
structure KeepsLater (seen kept : List Declared) : Prop where
  among : ∀ symbol ∈ kept, symbol ∈ seen
  rising : kept.Pairwise fun first second => first.lastLine < second.lastLine
  spanned : ∀ symbol ∈ seen, ∃ outer ∈ kept, outer.Spans symbol
  unhidden : ∀ symbol ∈ kept, ¬symbol.IsHidden seen

namespace KeepsLater

theorem eq_nil (keeps : KeepsLater seen []) : seen = [] := by
  refine List.eq_nil_iff_forall_not_mem.mpr fun symbol member => ?_
  obtain ⟨_, nothing, _⟩ := keeps.spanned symbol member
  cases nothing

theorem lastLine_le (keeps : KeepsLater seen (kept ++ [symbol])) :
    ∀ outer ∈ kept ++ [symbol], outer.lastLine ≤ symbol.lastLine := by
  have rising := (List.pairwise_append.mp keeps.rising).2.2
  refine List.forall_mem_append.mpr ⟨fun outer member => ?_, ?_⟩
  · exact Nat.le_of_lt (rising outer member symbol List.mem_cons_self)
  · exact List.forall_mem_singleton.mpr (Nat.le_refl _)

/-- A declaration that does not begin before those that are kept hides none of them. -/
theorem unhidden_snoc (keeps : KeepsLater seen kept)
    (sorted : ∀ other ∈ seen, startsBefore other symbol = true) :
    ∀ outer ∈ kept, ¬outer.IsHidden (seen ++ [symbol]) := by
  rintro outer member ⟨other, listed, spans, proper⟩
  rcases List.mem_append.mp listed with before | here
  · exact keeps.unhidden outer member ⟨other, before, spans, proper⟩
  · obtain rfl := List.mem_singleton.mp here
    have begins := sorted outer (keeps.among outer member)
    simp only [startsBefore, Bool.or_eq_true, Bool.and_eq_true, decide_eq_true_eq, beq_iff_eq]
      at begins
    simp only [Declared.Spans] at spans proper
    omega

theorem skip {outer : Declared} (keeps : KeepsLater seen kept) (member : outer ∈ kept)
    (sorted : ∀ other ∈ seen, startsBefore other symbol = true) (spans : outer.Spans symbol) :
    KeepsLater (seen ++ [symbol]) kept where
  among other listed := List.mem_append_left _ (keeps.among other listed)
  rising := keeps.rising
  spanned := List.forall_mem_append.mpr
    ⟨keeps.spanned, List.forall_mem_singleton.mpr ⟨outer, member, spans⟩⟩
  unhidden := keeps.unhidden_snoc sorted

/-- A declaration that ends after all that are kept is spanned by nothing seen so far. -/
theorem push (keeps : KeepsLater seen kept)
    (sorted : ∀ other ∈ seen, startsBefore other symbol = true)
    (beyond : ∀ outer ∈ kept, outer.lastLine < symbol.lastLine) :
    KeepsLater (seen ++ [symbol]) (kept ++ [symbol]) where
  among := List.forall_mem_append.mpr
    ⟨fun other listed => List.mem_append_left _ (keeps.among other listed),
      List.forall_mem_singleton.mpr (List.mem_append_right _ List.mem_cons_self)⟩
  rising := by
    refine List.pairwise_append.mpr ⟨keeps.rising, List.pairwise_singleton _ _, ?_⟩
    intro outer member last here
    rw [List.mem_singleton.mp here]
    exact beyond outer member
  spanned := by
    refine List.forall_mem_append.mpr ⟨fun other member => ?_, ?_⟩
    · obtain ⟨outer, listed, spans⟩ := keeps.spanned other member
      exact ⟨outer, List.mem_append_left _ listed, spans⟩
    · exact List.forall_mem_singleton.mpr
        ⟨symbol, List.mem_append_right _ List.mem_cons_self, Nat.le_refl _, Nat.le_refl _⟩
  unhidden := by
    refine List.forall_mem_append.mpr ⟨keeps.unhidden_snoc sorted, List.forall_mem_singleton.mpr ?_⟩
    rintro ⟨other, listed, spans, proper⟩
    rcases List.mem_append.mp listed with before | here
    · obtain ⟨outer, isKept, spans'⟩ := keeps.spanned other before
      have ends := beyond outer isKept
      simp only [Declared.Spans] at spans spans'
      omega
    · obtain rfl := List.mem_singleton.mp here
      exact proper spans

/-- One more declaration, which does not begin before those seen so far. -/
theorem keepOuter (keeps : KeepsLater seen kept)
    (sorted : ∀ other ∈ seen, startsBefore other symbol = true) :
    KeepsLater (seen ++ [symbol]) (Chunk.keepOuter kept symbol) := by
  rcases List.eq_nil_or_concat kept with rfl | ⟨front, outer, rfl⟩
  · obtain rfl := keeps.eq_nil
    exact keeps.push sorted fun _ nothing => nomatch nothing
  · rw [List.concat_eq_append] at keeps ⊢
    have last : outer ∈ front ++ [outer] := List.mem_append_right _ List.mem_cons_self
    unfold Chunk.keepOuter
    rw [List.getLast?_concat]
    dsimp only
    split
    · next inside =>
      refine keeps.skip last sorted ⟨?_, inside⟩
      have begins := sorted outer (keeps.among outer last)
      simp only [startsBefore, Bool.or_eq_true, Bool.and_eq_true, decide_eq_true_eq, beq_iff_eq]
        at begins
      omega
    · next ends =>
      refine keeps.push sorted fun other member => ?_
      exact Nat.lt_of_le_of_lt (keeps.lastLine_le other member) (Nat.lt_of_not_le ends)

end KeepsLater

theorem foldl_keepsLater
    (sorted : seen.Pairwise fun first second => startsBefore first second = true) :
    KeepsLater seen (seen.foldl keepOuter []) := by
  induction seen using List.reverseRecOn with
  | nil => exact ⟨by rintro _ ⟨⟩, .nil, by rintro _ ⟨⟩, by rintro _ ⟨⟩⟩
  | append_singleton seen symbol ih =>
    obtain ⟨before, _, between⟩ := List.pairwise_append.mp sorted
    rw [List.foldl_append]
    exact (ih before).keepOuter fun other member => between other member symbol List.mem_cons_self

theorem keepsLater_outermost (symbols : List Declared) : KeepsLater symbols (outermost symbols) := by
  have mem {symbol : Declared} : symbol ∈ symbols.mergeSort startsBefore ↔ symbol ∈ symbols :=
    List.mem_mergeSort
  have keeps : KeepsLater (symbols.mergeSort startsBefore) (outermost symbols) :=
    foldl_keepsLater (List.pairwise_mergeSort startsBefore_trans startsBefore_total symbols)
  refine ⟨fun symbol listed => mem.mp (keeps.among symbol listed), keeps.rising,
    fun symbol member => keeps.spanned symbol (mem.mpr member), ?_⟩
  rintro symbol listed ⟨other, member, spans⟩
  exact keeps.unhidden symbol listed ⟨other, mem.mpr member, spans⟩

/-- Of the declarations that run back, a file is cut along those that no other one hides. -/
theorem runsBack_outermost_iff :
    (∀ symbol ∈ outermost symbols, symbol.RunsBack → count < symbol.firstLine) ↔
      ∀ symbol ∈ symbols, symbol.RunsBack → symbol.firstLine ≤ count → symbol.IsHidden symbols := by
  have keeps := keepsLater_outermost symbols
  constructor
  · intro forward symbol member back inFile
    obtain ⟨outer, isKept, spans⟩ := keeps.spanned symbol member
    refine ⟨outer, keeps.among outer isKept, spans, fun spans' => ?_⟩
    have beyond := forward outer isKept
    simp only [Declared.RunsBack, Declared.Spans] at back beyond spans spans'
    omega
  · intro hidden symbol isKept back
    by_contra inFile
    exact keeps.unhidden symbol isKept
      (hidden symbol (keeps.among symbol isKept) back (Nat.le_of_not_lt inFile))

end Outermost

section Stretches

/-- Whether the line is one of the stretch. -/
def Stretch.containsLine (stretch : Stretch) (line : Nat) : Bool :=
  decide (stretch.first ≤ line) && decide (line ≤ stretch.last)

theorem Stretch.containsLine_iff {stretch : Stretch} :
    stretch.containsLine line = true ↔ stretch.first ≤ line ∧ line ≤ stretch.last := by
  simp [containsLine]

/-- No stretch leaves the file. -/
theorem stretches_bounds (symbols : List Declared) (positive : 1 ≤ next) :
    ∀ stretch ∈ stretches count next symbols, 1 ≤ stretch.first ∧ stretch.last ≤ count := by
  induction symbols generalizing next with
  | nil =>
    unfold stretches
    split
    · exact List.forall_mem_singleton.mpr ⟨positive, Nat.le_refl _⟩
    · exact List.forall_mem_nil _
  | cons symbol rest ih =>
    unfold stretches
    split
    · exact ih positive
    · next taken =>
      refine List.forall_mem_append.mpr ⟨?_, List.forall_mem_cons.mpr ⟨?_, ih (Nat.le_add_left ..)⟩⟩
      · split
        · refine List.forall_mem_singleton.mpr ⟨positive, ?_⟩
          dsimp only
          omega
        · exact List.forall_mem_nil _
      · dsimp only
        omega

/-- Wherever a declaration ends, the next stretch goes on from there; so no line is left out. -/
theorem stretches_cover (symbols : List Declared) (lower : next ≤ line) (upper : line ≤ count) :
    1 ≤ (stretches count next symbols).countP (·.containsLine line) := by
  induction symbols generalizing next with
  | nil =>
    unfold stretches
    refine Nat.le_of_eq (Eq.symm ?_)
    rw [if_pos (Nat.le_trans lower upper), List.countP_singleton,
      if_pos (Stretch.containsLine_iff.mpr ⟨lower, upper⟩)]
  | cons symbol rest ih =>
    unfold stretches
    split
    · exact ih lower
    · dsimp only
      rw [List.countP_append, List.countP_cons]
      by_cases before : line < symbol.firstLine
      · rw [if_pos (Nat.lt_of_le_of_lt lower before), List.countP_singleton,
          if_pos (Stretch.containsLine_iff.mpr ⟨lower, Nat.le_sub_one_of_lt before⟩)]
        omega
      · by_cases inside : line ≤ min symbol.lastLine count
        · rw [if_pos (Stretch.containsLine_iff.mpr ⟨Nat.le_of_not_lt before, inside⟩)]
          omega
        · have later : min symbol.lastLine count + 1 ≤ line := by omega
          have covered := ih later
          omega

/-- A declaration that runs back is passed by to its first line, and then again from its last. -/
theorem stretches_repeat (rising : kept.Pairwise fun first second => first.lastLine < second.lastLine)
    (ahead : ∀ symbol ∈ kept, next ≤ symbol.lastLine + 1) (member : symbol ∈ kept)
    (back : symbol.RunsBack) (inFile : symbol.firstLine ≤ count) :
    ∃ line, 2 ≤ (stretches count next kept).countP (·.containsLine line) := by
  unfold Declared.RunsBack at back
  induction kept generalizing next with
  | nil => cases member
  | cons other rest ih =>
    obtain ⟨after, rising⟩ := List.pairwise_cons.mp rising
    obtain ⟨here, ahead⟩ := List.forall_mem_cons.mp ahead
    unfold stretches
    rcases List.mem_cons.mp member with rfl | later
    · rw [if_neg (by omega), if_pos (by omega)]
      have again := stretches_cover rest (Nat.le_refl (min symbol.lastLine count + 1))
        (by omega : min symbol.lastLine count + 1 ≤ count)
      refine ⟨min symbol.lastLine count + 1, ?_⟩
      have first : Stretch.containsLine ⟨next, symbol.firstLine - 1, none⟩
          (min symbol.lastLine count + 1) = true :=
        Stretch.containsLine_iff.mpr ⟨by dsimp only; omega, by dsimp only; omega⟩
      rw [List.countP_append, List.countP_singleton, if_pos first, List.countP_cons]
      omega
    · split
      · exact ih rising ahead later
      · have ahead' : ∀ third ∈ rest, min other.lastLine count + 1 ≤ third.lastLine + 1 := by
          intro third listed
          have := after third listed
          omega
        obtain ⟨line, twice⟩ := ih rising ahead' later
        refine ⟨line, ?_⟩
        dsimp only
        rw [List.countP_append, List.countP_cons]
        omega

/-- Where a file is cut along no declaration that runs back, what the stretches are cut into follows
one another. A stretch may be empty, if its declaration ends right before it begins. -/
theorem stretches_tiles_of_forward {α : Type} {part : α → Nat × Nat} {cut : Stretch → Option (List α)}
    (each : ∀ stretch, stretch.last ≤ count → stretch.first ≤ stretch.last + 1 →
      ∃ pieces, cut stretch = some pieces ∧ Tiles part stretch.first stretch.last pieces)
    (kept : List Declared)
    (forward : ∀ symbol ∈ kept, symbol.RunsBack → count < symbol.firstLine)
    (within : next ≤ count + 1) :
    ∃ pieces, (stretches count next kept).mapM cut = some pieces ∧
      Tiles part next count pieces.flatten := by
  induction kept generalizing next with
  | nil =>
    unfold stretches
    split
    · obtain ⟨pieces, made, tiles⟩ := each ⟨next, count, none⟩ (Nat.le_refl _) within
      exact ⟨[pieces], by simp [made], by simpa using tiles⟩
    · obtain rfl : next = count + 1 := by omega
      exact ⟨[], rfl, .done count⟩
  | cons symbol rest ih =>
    obtain ⟨here, forward⟩ := List.forall_mem_cons.mp forward
    unfold Declared.RunsBack at here
    unfold stretches
    split
    · exact ih forward within
    · dsimp only
      have last : min symbol.lastLine count ≤ count := Nat.min_le_right ..
      obtain ⟨pieces, made, tiles⟩ := each
        ⟨symbol.firstLine, min symbol.lastLine count, some (symbol.kind, symbol.name)⟩ last
        (by dsimp only; omega)
      obtain ⟨others, madeOthers, tilesOthers⟩ := ih forward (Nat.succ_le_succ last)
      have rest := tiles.append tilesOthers
      split
      · obtain ⟨before, madeBefore, tilesBefore⟩ :=
          each ⟨next, symbol.firstLine - 1, none⟩ (by dsimp only; omega) (by dsimp only; omega)
        have starts : symbol.firstLine - 1 + 1 = symbol.firstLine := by omega
        refine ⟨before :: pieces :: others, by simp [madeBefore, made, madeOthers], ?_⟩
        exact tilesBefore.append (starts.symm ▸ rest)
      · obtain rfl : next = symbol.firstLine := by omega
        exact ⟨pieces :: others, by simp [made, madeOthers], rest⟩

end Stretches

section Cut

variable {path content : String} {lines : Array String} {stretch : Stretch} {chunks : List Chunk}

/-- What a stretch is cut into has each of its lines once. A stretch that runs back has none. -/
theorem exists_ofStretch? (lines : Array String) (path : String) (positive : 1 ≤ size)
    (countable : stretch.last + size < UInt64.size) :
    ∃ pieces, ofStretch? ⟨size, false⟩ lines path stretch = some pieces ∧
      (∀ chunk ∈ pieces, chunk.path = path ∧ stretch.first ≤ chunk.firstLine ∧
        chunk.firstLine ≤ chunk.lastLine ∧ chunk.lastLine ≤ stretch.last) ∧
      ∀ line, pieces.countP (·.containsLine line) = if stretch.containsLine line then 1 else 0 := by
  by_cases within : stretch.first ≤ stretch.last + 1
  · obtain ⟨pieces, run, tiles, _⟩ := ofStretch?_tiles lines path positive countable within
    have paths := (ofStretch?_spans run within).2
    refine ⟨pieces, run, fun chunk member => ⟨paths chunk member, tiles.bounds member⟩, fun line => ?_⟩
    have spanned : ∀ chunk ∈ pieces, chunk.containsLine line = true ↔
        (span chunk).1 ≤ line ∧ line ≤ (span chunk).2 := fun chunk _ => by simp [containsLine, span]
    split
    · next inside =>
      obtain ⟨lower, upper⟩ := Stretch.containsLine_iff.mp inside
      exact tiles.countP_eq_one spanned lower upper
    · next outside =>
      rw [List.countP_eq_zero]
      intro chunk member inside
      have bounds := tiles.bounds member
      have lines := (spanned chunk member).mp inside
      exact outside (Stretch.containsLine_iff.mpr ⟨by omega, by omega⟩)
  · have nothing : windows? size stretch.first stretch.last = some [] := by
      rw [windows?, show stretch.last + 1 - stretch.first = 0 by omega]
      rfl
    refine ⟨[], by rw [ofStretch?, nothing]; rfl, List.forall_mem_nil _, fun line => ?_⟩
    rw [if_neg, List.countP_nil]
    intro inside
    have := Stretch.containsLine_iff.mp inside
    omega

/-- Each chunk ends before the next one begins; so no line is in two of them, and no two have the same
id. -/
structure InOrder (chunks : List Chunk) : Prop where
  apart : chunks.Pairwise fun first second => first.lastLine < second.firstLine
  once : ∀ line, chunks.countP (·.containsLine line) ≤ 1
  ids : (chunks.map id).Nodup

theorem InOrder.sublist {kept : List Chunk} (inOrder : InOrder chunks) (sublist : kept.Sublist chunks) :
    InOrder kept where
  apart := inOrder.apart.sublist sublist
  once line := Nat.le_trans sublist.countP_le (inOrder.once line)
  ids := inOrder.ids.sublist (sublist.map id)

theorem inOrder_of_tiles {first last : Nat} (tiles : Tiles span first last chunks)
    (paths : ∀ chunk ∈ chunks, chunk.path = path) : InOrder chunks where
  apart := tiles.apart
  once line := by
    by_cases inside : first ≤ line ∧ line ≤ last
    · have spanned : ∀ chunk ∈ chunks, chunk.containsLine line = true ↔
          (span chunk).1 ≤ line ∧ line ≤ (span chunk).2 := fun chunk _ => by simp [containsLine, span]
      exact Nat.le_of_eq (tiles.countP_eq_one spanned inside.1 inside.2)
    · have none : chunks.countP (·.containsLine line) = 0 := by
        rw [List.countP_eq_zero]
        intro chunk member within
        have bounds := tiles.bounds member
        simp only [containsLine, span, Bool.and_eq_true, decide_eq_true_eq] at within bounds
        omega
      exact none ▸ Nat.zero_le 1
  ids := nodup_ids_of_pairwise tiles.pairwise paths

/-- However declarations lie, a file can be cut, and its chunks have a line as often as its stretches. -/
theorem exists_cut_counted (path : String) (symbols : List Declared) (positive : 1 ≤ size)
    (countable : (Text.lines content).length + size < UInt64.size) :
    ∃ chunks, cut ⟨size, false⟩ path content symbols = .ok chunks ∧
      (∀ chunk ∈ chunks, 1 ≤ chunk.firstLine ∧ chunk.firstLine ≤ chunk.lastLine ∧
        chunk.lastLine ≤ (Text.lines content).length) ∧
      ∀ line, chunks.countP (·.containsLine line) =
        (stretches (Text.lines content).length 1 (outermost symbols)).countP (·.containsLine line) := by
  have bounds : ∀ stretch ∈ stretches (Text.lines content).length 1 (outermost symbols),
      1 ≤ stretch.first ∧ stretch.last ≤ (Text.lines content).length :=
    stretches_bounds (outermost symbols) (Nat.le_refl 1)
  have each (stretch : Stretch)
      (listed : stretch ∈ stretches (Text.lines content).length 1 (outermost symbols)) :=
    exists_ofStretch? (Text.lines content).toArray path positive
      (Nat.lt_of_le_of_lt (Nat.add_le_add_right (bounds stretch listed).2 size) countable)
  have all : ((stretches (Text.lines content).length 1 (outermost symbols)).mapM
      (ofStretch? ⟨size, false⟩ (Text.lines content).toArray path)).isSome := by
    refine mapM_isSome_iff.mpr fun stretch listed => ?_
    obtain ⟨pieces, run, _⟩ := each stretch listed
    exact Option.isSome_iff_exists.mpr ⟨pieces, run⟩
  obtain ⟨pieces, made⟩ := Option.isSome_iff_exists.mp all
  refine ⟨pieces.flatten, cut_eq_ok_iff.mpr ⟨pieces, made, rfl⟩, fun chunk member => ?_, fun line => ?_⟩
  · obtain ⟨piece, listed, inside⟩ := List.mem_flatten.mp member
    obtain ⟨stretch, among, cutOut⟩ := exists_of_mem_mapM made listed
    obtain ⟨_, run, within, _⟩ := each stretch among
    obtain rfl := Option.some.inj (cutOut.symm.trans run)
    have inFile := bounds stretch among
    have inStretch := within chunk inside
    omega
  · refine countP_flatten_of_mapM made fun stretch among piece cutOut => ?_
    obtain ⟨_, run, _, counted⟩ := each stretch among
    obtain rfl := Option.some.inj (cutOut.symm.trans run)
    exact counted line

theorem cut_inOrder (positive : 1 ≤ size)
    (countable : (Text.lines content).length + size < UInt64.size)
    (run : cut ⟨size, false⟩ path content symbols = .ok chunks)
    (forward : ∀ symbol ∈ outermost symbols, symbol.RunsBack →
      (Text.lines content).length < symbol.firstLine) : InOrder chunks := by
  obtain ⟨pieces, made, rfl⟩ := cut_eq_ok_iff.mp run
  have each (stretch : Stretch) (upper : stretch.last ≤ (Text.lines content).length)
      (within : stretch.first ≤ stretch.last + 1) :
      ∃ pieces, ofStretch? ⟨size, false⟩ (Text.lines content).toArray path stretch = some pieces ∧
        Tiles span stretch.first stretch.last pieces := by
    obtain ⟨pieces, run, tiles, _⟩ :=
      ofStretch?_tiles (Text.lines content).toArray path positive (by omega) within
    exact ⟨pieces, run, tiles⟩
  obtain ⟨others, same, tiles⟩ :=
    stretches_tiles_of_forward each (outermost symbols) forward (Nat.le_add_left 1 _)
  obtain rfl := Option.some.inj (made.symm.trans same)
  refine inOrder_of_tiles tiles fun chunk member => show chunk.path = path from ?_
  obtain ⟨piece, listed, inside⟩ := List.mem_flatten.mp member
  obtain ⟨stretch, _, cutOut⟩ := exists_of_mem_mapM made listed
  obtain ⟨windows, _, rfl⟩ := Option.map_eq_some_iff.mp cutOut
  obtain ⟨window, _, rfl⟩ := List.mem_map.mp inside
  rfl

/-- However declarations lie, with first and last lines that are no lines, in any order or backward, the
chunks of a file leave out none of its lines. They are in order if each declaration that runs back in
the file is hidden by another one; if one is not, some line is in two chunks. Without the blank chunks
they are the same but for these. A text in memory has less than 2 ^ 63 bytes. -/
theorem cut_repeats_iff (path content : String) (symbols : List Declared) (size : Nat)
    (positive : 1 ≤ size) (half : size < 2 ^ 63) (memory : content.utf8ByteSize < 2 ^ 63) :
    ∃ chunks, cut ⟨size, false⟩ path content symbols = .ok chunks ∧
      (∀ chunk ∈ chunks, 1 ≤ chunk.firstLine ∧ chunk.firstLine ≤ chunk.lastLine ∧
        chunk.lastLine ≤ (Text.lines content).length) ∧
      (∀ line, 1 ≤ line → line ≤ (Text.lines content).length →
        ∃ chunk ∈ chunks, chunk.containsLine line = true) ∧
      (InOrder chunks ↔ ∀ symbol ∈ symbols, symbol.RunsBack →
        symbol.firstLine ≤ (Text.lines content).length → symbol.IsHidden symbols) ∧
      (InOrder chunks ∨ ∃ line, 2 ≤ chunks.countP (·.containsLine line)) ∧
      ∃ kept, cut ⟨size, true⟩ path content symbols = .ok kept ∧
        kept = chunks.filter (fun chunk => !chunk.isBlank content) ∧
        (InOrder chunks → InOrder kept) := by
  have counted := Text.length_lines_le content
  have countable : (Text.lines content).length + size < UInt64.size := by
    have : UInt64.size = 2 ^ 63 + 2 ^ 63 := by decide
    omega
  obtain ⟨chunks, run, bounds, lines⟩ := exists_cut_counted path symbols positive countable
  have keeps := keepsLater_outermost symbols
  have repeats : ∀ symbol ∈ outermost symbols, symbol.RunsBack →
      symbol.firstLine ≤ (Text.lines content).length →
        ∃ line, 2 ≤ chunks.countP (·.containsLine line) := by
    intro symbol isKept back inFile
    obtain ⟨line, twice⟩ := stretches_repeat keeps.rising
      (fun _ _ => Nat.le_add_left 1 _) isKept back inFile
    exact ⟨line, lines line ▸ twice⟩
  have skipped := cut_skipBlank run
  rw [filter_isBlank fun chunk member => ⟨(bounds chunk member).1, (bounds chunk member).2.1⟩]
    at skipped
  refine ⟨chunks, run, bounds, fun line lower upper => ?_, ?_, ?_, _, skipped, rfl,
    fun inOrder => inOrder.sublist List.filter_sublist⟩
  · exact List.countP_pos_iff.mp (lines line ▸ stretches_cover (outermost symbols) lower upper)
  · rw [← runsBack_outermost_iff]
    refine ⟨fun inOrder symbol isKept back => ?_, cut_inOrder positive countable run⟩
    by_contra inFile
    obtain ⟨line, twice⟩ := repeats symbol isKept back (Nat.le_of_not_lt inFile)
    exact absurd (inOrder.once line) (Nat.not_le_of_lt twice)
  · by_cases forward : ∀ symbol ∈ outermost symbols, symbol.RunsBack →
        (Text.lines content).length < symbol.firstLine
    · exact .inl (cut_inOrder positive countable run forward)
    · obtain ⟨symbol, isKept, back, inFile⟩ : ∃ symbol ∈ outermost symbols, symbol.RunsBack ∧
          symbol.firstLine ≤ (Text.lines content).length := by simpa using forward
      exact .inr (repeats symbol isKept back inFile)

/-- A method that runs back is hidden by its class, and a function runs back beyond the end. -/
theorem cut_repeats_iff_hidden :
    let content := "class A\n  run()\n\nend\n\nrun()\n"
    let symbols : List Declared :=
      [⟨"A.run", .function, 4, 2, false⟩, ⟨"A", .classDecl, 1, 4, true⟩, ⟨"b", .function, 9, 5, false⟩]
    1 ≤ 3 ∧ 3 < 2 ^ 63 ∧ content.utf8ByteSize < 2 ^ 63 ∧
      ∃ chunks, cut ⟨3, false⟩ "src/a.ts" content symbols = .ok chunks ∧ InOrder chunks := by
  intro content symbols
  have small : content.utf8ByteSize < 2 ^ 63 := by decide +kernel
  have hidden : ∀ symbol ∈ symbols, symbol.RunsBack →
      symbol.firstLine ≤ (Text.lines content).length → symbol.IsHidden symbols := by decide
  obtain ⟨chunks, run, _, _, inOrder, _⟩ :=
    cut_repeats_iff "src/a.ts" content symbols 3 (by decide) (by decide) small
  exact ⟨by decide, by decide, small, chunks, run, inOrder.mpr hidden⟩

/-- A function that is said to begin in line 3 and to end in line 1: the lines before it are cut, and
then line 2 again. -/
theorem cut_repeats_line :
    let symbols : List Declared := [⟨"f", .function, 3, 1, false⟩]
    ChunkOptions.check ⟨1, true⟩ = .ok () ∧
      ∃ chunks, cut ⟨1, true⟩ "a.ts" "a\nb\nc\n" symbols = .ok chunks ∧
        chunks.map id = ["a.ts:1:1", "a.ts:2:2", "a.ts:2:2", "a.ts:3:3"] ∧
        chunks.countP (·.containsLine 2) = 2 ∧ ¬InOrder chunks := by
  intro symbols
  have seen : (cut ⟨1, true⟩ "a.ts" "a\nb\nc\n" symbols).toOption.map (fun chunks =>
      (chunks.map id, chunks.countP (·.containsLine 2))) =
        some (["a.ts:1:1", "a.ts:2:2", "a.ts:2:2", "a.ts:3:3"], 2) := by decide +kernel
  cases run : cut ⟨1, true⟩ "a.ts" "a\nb\nc\n" symbols with
  | error reason =>
    rw [run] at seen
    cases seen
  | ok chunks =>
    rw [run] at seen
    obtain ⟨ids, twice⟩ := Prod.mk.inj (Option.some.inj seen)
    refine ⟨rfl, chunks, rfl, ids, twice, fun inOrder => ?_⟩
    have once := inOrder.once 2
    omega

end Cut

end Chunk

end CodeAtlas

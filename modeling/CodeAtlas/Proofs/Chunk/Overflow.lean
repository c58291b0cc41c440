import Mathlib.Algebra.Group.Nat.Defs
import CodeAtlas.Proofs.Chunk.Ids
import CodeAtlas.Proofs.Text.Trim

namespace CodeAtlas.Chunk

variable {size first last : Nat} {path content : String} {options : ChunkOptions}

/-- A window that is long enough is the only one. -/
theorem windows?_eq_singleton (positive : 1 ≤ size) (fits : first + size < UInt64.size)
    (within : first ≤ last) (long : last < first + size) :
    windows? size first last = some [(first, last)] := by
  obtain ⟨count, lines⟩ : ∃ count, last + 1 - first = count + 1 := ⟨last - first, by omega⟩
  have whole : min (first + size - 1) last = last := by omega
  have done : windowsUpTo? size last count (last + 1) = some [] := by
    cases count with
    | zero => rfl
    | succ count => rw [windowsUpTo?, if_pos (Nat.lt_succ_self last)]
  unfold windows?
  rw [lines, windowsUpTo?, if_neg (Nat.not_lt.mpr within), windowEnd?_eq_some positive fits,
    Option.bind_some, whole, done]
  rfl

/-- Whether the windows of some lines can be counted is decided by the first one: with a length of more
than 63 bits there is no other. -/
theorem windows?_isSome_iff (positive : 1 ≤ size) (within : first ≤ last) (short : last < 2 ^ 63) :
    (windows? size first last).isSome ↔ first + size < UInt64.size := by
  have halves : UInt64.size = 2 ^ 63 + 2 ^ 63 := by decide
  constructor
  · intro counted
    obtain ⟨windows, run⟩ := Option.isSome_iff_exists.mp counted
    obtain ⟨count, lines⟩ : ∃ count, last + 1 - first = count + 1 := ⟨last - first, by omega⟩
    rw [windows?, lines, windowsUpTo?, if_neg (Nat.not_lt.mpr within)] at run
    obtain ⟨stop, ends, _⟩ := Option.bind_eq_some_iff.mp run
    exact (of_windowEnd? ends).2.1
  · intro fits
    refine Option.isSome_iff_exists.mpr ?_
    by_cases long : last < first + size
    · exact ⟨_, windows?_eq_singleton positive fits within long⟩
    · obtain ⟨windows, run, _⟩ :=
        windows?_tiles positive (by omega : last + size < UInt64.size) (Nat.le_succ_of_le within)
      exact ⟨windows, run⟩

/-- The declarations that a file is cut along, of which there are none if it has no outline. -/
def declarationsIn (path content : String) : List Declared :=
  match Outline.ofSource path content with
  | .ok outline => outline.symbols
  | .error _ => []

/-- The stretches of a file: its outermost declarations and what lies between them. -/
def stretchesOf (path content : String) : List Stretch :=
  stretches (Text.lines content).length 1 (outermost (declarationsIn path content))

theorem stretchesOf_tiles (path content : String) :
    Tiles Stretch.span 1 (Text.lines content).length (stretchesOf path content) := by
  refine stretches_tiles _ (fun symbol member => ?_) 1 (Nat.le_add_left 1 _)
  have listed := mem_of_mem_outermost member
  unfold declarationsIn at listed
  split at listed
  · next outlined => exact Outline.ofSource_isOrdered outlined symbol listed
  · cases listed

theorem ofSource_eq (visible : Text.isBlankText content = false) :
    ofSource options path content = cut options path content (declarationsIn path content) := by
  unfold ofSource
  rw [if_neg (by simp [visible])]
  rfl

theorem cut_isOk_iff {symbols : List Declared} :
    (∃ chunks, cut options path content symbols = .ok chunks) ↔
      ∀ stretch ∈ stretches (Text.lines content).length 1 (outermost symbols),
        (windows? options.maxLines stretch.first stretch.last).isSome := by
  have cuts (stretch : Stretch) :
      (ofStretch? options (Text.lines content).toArray path stretch).isSome =
        (windows? options.maxLines stretch.first stretch.last).isSome := Option.isSome_map
  simp only [← cuts]
  rw [← mapM_isSome_iff, Option.isSome_iff_exists]
  constructor
  · rintro ⟨_, made⟩
    obtain ⟨pieces, all, _⟩ := cut_eq_ok_iff.mp made
    exact ⟨pieces, all⟩
  · rintro ⟨pieces, all⟩
    exact ⟨_, cut_eq_ok_iff.mpr ⟨pieces, all, rfl⟩⟩

theorem ofSource_eq_overflow_iff (visible : Text.isBlankText content = false) :
    ofSource options path content = .error .overflow ↔
      ¬∃ chunks, ofSource options path content = .ok chunks := by
  rw [ofSource_eq visible]
  unfold cut
  dsimp only
  split
  · simp
  · simp

/-- A file that is not blank is cut if and only if each of its stretches begins where one window can be
counted; the program aborts at any other. With windows of at most 2 ^ 63 lines every file is cut. No
window ends before it begins or leaves the file. A text in memory has less than 2 ^ 63 bytes. -/
theorem ofSource_isOk_iff (path content : String) (valid : options.check = .ok ())
    (visible : Text.isBlankText content = false) (memory : content.utf8ByteSize < 2 ^ 63) :
    ((∃ chunks, ofSource options path content = .ok chunks) ↔
        ∀ stretch ∈ stretchesOf path content, stretch.first + options.maxLines < UInt64.size) ∧
      (ofSource options path content = .error .overflow ↔
        ∃ stretch ∈ stretchesOf path content, UInt64.size ≤ stretch.first + options.maxLines) ∧
      (options.maxLines ≤ 2 ^ 63 → ∃ chunks, ofSource options path content = .ok chunks) ∧
      ∀ stretch ∈ stretchesOf path content, ∀ windows,
        windows? options.maxLines stretch.first stretch.last = some windows →
          ∀ window ∈ windows,
            1 ≤ window.1 ∧ window.1 ≤ window.2 ∧ window.2 ≤ (Text.lines content).length := by
  have positive := maxLines_pos valid
  have halves : UInt64.size = 2 ^ 63 + 2 ^ 63 := by decide
  have short := Text.length_lines_le content
  have within (stretch : Stretch) (listed : stretch ∈ stretchesOf path content) :
      1 ≤ stretch.first ∧ stretch.first ≤ stretch.last ∧
        stretch.last ≤ (Text.lines content).length :=
    (stretchesOf_tiles path content).bounds listed
  have cuts : (∃ chunks, ofSource options path content = .ok chunks) ↔
      ∀ stretch ∈ stretchesOf path content, stretch.first + options.maxLines < UInt64.size := by
    rw [ofSource_eq visible, cut_isOk_iff]
    refine forall₂_congr fun stretch listed => ?_
    have inside := within stretch listed
    exact windows?_isSome_iff positive inside.2.1 (by omega)
  refine ⟨cuts, ?_, fun half => cuts.mpr fun stretch listed => ?_, ?_⟩
  · rw [ofSource_eq_overflow_iff visible, cuts]
    simp
  · have inside := within stretch listed
    omega
  · intro stretch listed windows run window member
    have inside := within stretch listed
    have bounds :=
      (windowsUpTo?_spans run (by omega) (Nat.le_succ_of_le inside.2.1)).bounds member
    omega

/-- The longest windows with which the second stretch of a file can be counted. -/
theorem ofSource_isOk_iff_longest :
    let options : ChunkOptions := ⟨UInt64.size - 3, true⟩
    let content := "f();\nfunction g() {}\n"
    options.check = .ok () ∧ Text.isBlankText content = false ∧ content.utf8ByteSize < 2 ^ 63 ∧
      ∃ chunks, ofSource options "a.js" content = .ok chunks := by
  intro options content
  have visible : Text.isBlankText content = false := by decide
  have small : content.utf8ByteSize < 2 ^ 63 := by decide +kernel
  have fits : ∀ stretch ∈ stretchesOf "a.js" content, stretch.first + options.maxLines < UInt64.size := by
    decide +kernel
  exact ⟨rfl, visible, small, (ofSource_isOk_iff "a.js" content rfl visible small).1.mpr fits⟩

/-- The options allow windows of any length below 2 ^ 64, and with the longest one the program aborts at
the function in line 2. -/
theorem ofSource_overflows :
    let options : ChunkOptions := ⟨UInt64.size - 1, true⟩
    let content := "f();\nfunction g() {}\n"
    options.check = .ok () ∧ options.maxLines < UInt64.size ∧ Text.isBlankText content = false ∧
      ofSource options "a.js" content = .error .overflow := by
  intro options content
  exact ⟨rfl, by decide, by decide, by decide +kernel⟩

end CodeAtlas.Chunk

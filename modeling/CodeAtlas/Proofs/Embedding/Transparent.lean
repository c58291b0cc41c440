import CodeAtlas.Proofs.Embedding.Lookup
import Mathlib.Data.List.Nodup

namespace CodeAtlas.Embedder

/-- What happens to an embedder without a provider: another one takes its place and its cache, or it
is asked for vectors. -/
inductive Step where
  | replace (dimension : Nat)
  | embed (clock : Nat → Nat) (texts : List String)

def Step.texts : Step → List String
  | .replace _ => []
  | .embed _ texts => texts

def after (embedder : Embedder) : Step → Embedder
  | .replace dimension => hashOnly dimension embedder.cache
  | .embed clock texts => (embedder.embedDuring clock texts).2

def afterAll (embedder : Embedder) (steps : List Step) : Embedder := steps.foldl after embedder

/-- No two of the texts share a key. -/
def KeysDiffer (texts : List String) : Prop :=
  ∀ first ∈ texts, ∀ second ∈ texts,
    EmbeddingCache.keyOf first = EmbeddingCache.keyOf second → first = second

instance (texts : List String) : Decidable (KeysDiffer texts) :=
  inferInstanceAs (Decidable (∀ first ∈ texts, ∀ second ∈ texts, _ → _))

/-- It is enough to look at each text once. -/
theorem keysDiffer_of_nodup {texts : List String}
    (distinct : (texts.eraseDups.map EmbeddingCache.keyOf).Nodup) : KeysDiffer texts := by
  intro first inFirst second inSecond same
  exact List.inj_on_of_nodup_map distinct (List.mem_eraseDups.mpr inFirst)
    (List.mem_eraseDups.mpr inSecond) same

variable {embedder : Embedder} {known texts : List String}

/-- Nothing but hash vectors of known texts is held, each under the key of its text. Their dimensions
may differ. -/
structure HoldsHashes (embedder : Embedder) (known : List String) : Prop where
  alone : embedder.provider = none
  holds : ∀ key vector, embedder.cache.Holds key vector → ∃ text ∈ known, ∃ dimension,
    key = EmbeddingCache.keyOf text ∧ vector = Embedding.hash dimension text

theorem hashOnly_holdsHashes (dimension capacity ttl : Nat) (known : List String) :
    (hashOnly dimension (.new capacity ttl)).HoldsHashes known :=
  ⟨rfl, fun _ _ holds => absurd holds (Cache.not_holds_new _ _)⟩

theorem computed_of_alone (alone : embedder.provider = none) (texts : List String) :
    embedder.computed texts = texts.map (Embedding.hash embedder.dimension) := by
  rw [computed, provided, alone]
  rfl

/-- A vector that is found is a hash vector of the text, and its length shows of which dimension. -/
theorem HoldsHashes.found {clock : Nat → Nat} {text : String} {vector : Embedding}
    (hashes : embedder.HoldsHashes known) (differ : KeysDiffer known) (listed : texts ⊆ known)
    (found : (text, some vector) ∈
      texts.zip (lookUp embedder.dimension clock 0 texts embedder.cache).1) :
    vector = Embedding.hash embedder.dimension text := by
  obtain ⟨holds, fits⟩ := of_mem_lookUp found
  obtain ⟨other, taken, dimension, same, rfl⟩ := hashes.holds _ _ holds
  obtain rfl := differ _ (listed (List.of_mem_zip found).1) _ taken same
  rw [Embedding.length_hash] at fits
  rw [fits]

/-- Found or computed, every text has its hash vector. -/
theorem HoldsHashes.embedDuring (hashes : embedder.HoldsHashes known) (differ : KeysDiffer known)
    (listed : texts ⊆ known) (clock : Nat → Nat) :
    (embedder.embedDuring clock texts).1 = texts.map (Embedding.hash embedder.dimension) := by
  have count := length_lookUp embedder.dimension clock 0 texts embedder.cache
  have paired : (texts.zip (lookUp embedder.dimension clock 0 texts embedder.cache).1).map (·.1) =
      texts := List.map_fst_zip (Nat.le_of_eq count.symm)
  rw [embedDuring_eq]
  conv => rhs; rw [← paired, List.map_map]
  refine List.map_congr_left ?_
  rintro ⟨text, found⟩ asked
  cases found with
  | some vector => exact hashes.found differ listed asked
  | none =>
    obtain ⟨number, vector, there, computed, found⟩ :=
      embedder.exists_computed (mem_missing.mpr asked)
    rw [computed_of_alone hashes.alone, List.getElem?_map, there] at computed
    dsimp only [Function.comp_apply]
    rw [misses, found]
    exact (Option.some.inj computed).symm

theorem mem_misses_subset (embedder : Embedder) (clock : Nat → Nat) (texts : List String) :
    embedder.misses clock texts ⊆ texts :=
  fun _ missed => (List.of_mem_zip (mem_missing.mp missed)).1

/-- What an embedder without a provider writes are hash vectors of texts that it was asked for. -/
theorem of_mem_written {clock : Nat → Nat} {text : String} {vector : Embedding}
    (alone : embedder.provider = none)
    (written : (text, vector) ∈ embedder.written (embedder.misses clock texts)) :
    text ∈ texts ∧ vector = Embedding.hash embedder.dimension text := by
  unfold Embedder.written at written
  split at written
  · rw [computed_of_alone alone, ← List.map_prod_left_eq_zip] at written
    obtain ⟨asked, missed, same⟩ := List.mem_map.mp written
    obtain ⟨rfl, rfl⟩ := Prod.mk.inj same
    exact ⟨mem_misses_subset embedder clock texts missed, rfl⟩
  · cases written

/-- An embedder takes up the hash vectors of the texts that it is asked for; one that takes its place
takes over what it holds. -/
theorem HoldsHashes.after {step : Step} (hashes : embedder.HoldsHashes known)
    (listed : step.texts ⊆ known) : (embedder.after step).HoldsHashes known := by
  cases step with
  | replace dimension => exact ⟨rfl, hashes.holds⟩
  | embed clock texts =>
    refine ⟨?_, fun key vector holds => ?_⟩
    · have kept : (embedder.embedDuring clock texts).2.provider = embedder.provider := by
        rw [embedDuring_eq]
      exact kept.trans hashes.alone
    · rcases holds_of_embedDuring holds with before | ⟨text, keyed, written⟩
      · exact hashes.holds key vector before
      · obtain ⟨asked, hashed⟩ := of_mem_written hashes.alone written
        exact ⟨text, listed asked, embedder.dimension, keyed, hashed⟩

theorem HoldsHashes.afterAll {steps : List Step} (hashes : embedder.HoldsHashes known)
    (listed : steps.flatMap Step.texts ⊆ known) : (embedder.afterAll steps).HoldsHashes known := by
  induction steps generalizing embedder with
  | nil => exact hashes
  | cons step steps ih =>
    obtain ⟨head, tail⟩ := List.append_subset.mp listed
    exact ih (hashes.after head) tail

/-- Whatever was embedded before in whatever dimensions, and whatever the clock showed, texts are
answered with their hash vectors, as they are if nothing is cached. -/
theorem embed_transparent (dimension capacity ttl : Nat) (steps : List Step) (clock : Nat → Nat)
    (texts : List String) (differ : KeysDiffer (steps.flatMap Step.texts ++ texts)) :
    let embedder := (hashOnly dimension (.new capacity ttl)).afterAll steps
    let empty (room lifetime : Nat) : Embedder := { embedder with cache := .new room lifetime }
    (embedder.embedDuring clock texts).1 = texts.map (Embedding.hash embedder.dimension) ∧
      ∀ (room lifetime : Nat) (other : Nat → Nat),
        ((empty room lifetime).embedDuring other texts).1 = (embedder.embedDuring clock texts).1 := by
  intro embedder empty
  have hashes : embedder.HoldsHashes (steps.flatMap Step.texts ++ texts) :=
    (hashOnly_holdsHashes dimension capacity ttl _).afterAll (List.subset_append_left ..)
  have answers := hashes.embedDuring differ (List.subset_append_right ..) clock
  refine ⟨answers, fun room lifetime other => ?_⟩
  have nothing : (empty room lifetime).HoldsHashes (steps.flatMap Step.texts ++ texts) :=
    ⟨hashes.alone, fun _ _ holds => absurd holds (Cache.not_holds_new _ _)⟩
  exact (nothing.embedDuring differ (List.subset_append_right ..) other).trans answers.symm

/-- There is room for one vector only, and it is one of dimension 2 when dimension 3 comes up. In
between the clock runs backwards. -/
theorem embed_transparent_narrow :
    let steps : List Step :=
      [.embed (fun i => 10 - i) ["", "a"], .replace 3, .embed (fun i => 100 * i) ["a", "a"]]
    let embedder := (hashOnly 2 (.new 1 5)).afterAll steps
    KeysDiffer (steps.flatMap Step.texts ++ [""]) ∧
      (embedder.embedDuring id [""]).1 = [""].map (Embedding.hash embedder.dimension) := by
  intro steps embedder
  have differ : KeysDiffer (steps.flatMap Step.texts ++ [""]) := by decide +kernel
  exact ⟨differ, (embed_transparent 2 1 5 steps id [""] differ).1⟩

end CodeAtlas.Embedder

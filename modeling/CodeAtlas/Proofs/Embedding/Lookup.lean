import CodeAtlas.Embedding.Resilient
import CodeAtlas.Proofs.Cache.Holds

namespace CodeAtlas.Embedding

theorem length_normalize (vector : Embedding) : (normalize vector).length = vector.length := by
  unfold normalize
  dsimp only
  split
  · rfl
  · exact List.length_map ..

@[simp] theorem length_hash (dimension : Nat) (text : String) :
    (hash dimension text).length = dimension := by
  simp [hash, length_normalize]

end CodeAtlas.Embedding

namespace CodeAtlas.Embedder

variable {embedder : Embedder} {clock : Nat → Nat} {dimension : Nat} {texts : List String}
  {text : String} {vector : Embedding}

theorem length_lookUp (dimension : Nat) (clock : Nat → Nat) (i : Nat) (texts : List String)
    (cache : EmbeddingCache) : (lookUp dimension clock i texts cache).1.length = texts.length := by
  induction texts generalizing i cache with
  | nil => rfl
  | cons text texts ih => exact congrArg (· + 1) (ih (i + 1) _)

/-- What is found for a text was held under its key, and it has the right dimension. -/
theorem of_mem_lookUp {i : Nat} {cache : EmbeddingCache}
    (found : (text, some vector) ∈ texts.zip (lookUp dimension clock i texts cache).1) :
    cache.Holds (EmbeddingCache.keyOf text) vector ∧ vector.length = dimension := by
  induction texts generalizing i cache with
  | nil => cases found
  | cons first texts ih =>
    unfold lookUp at found
    rcases List.mem_cons.mp found with here | later
    · obtain ⟨rfl, here⟩ := Prod.mk.inj here
      obtain ⟨here, fits⟩ := Option.filter_eq_some_iff.mp here.symm
      exact ⟨Cache.holds_of_get here, beq_iff_eq.mp fits⟩
    · obtain ⟨holds, fits⟩ := ih later
      exact ⟨Cache.Holds.of_get holds, fits⟩

theorem holds_of_lookUp {i : Nat} {cache : EmbeddingCache} {key : String}
    (holds : (lookUp dimension clock i texts cache).2.Holds key vector) :
    cache.Holds key vector := by
  induction texts generalizing i cache with
  | nil => exact holds
  | cons text texts ih => exact Cache.Holds.of_get (ih holds)

/-- What is kept is what was there and what was written. -/
theorem holds_of_keep {i : Nat} {vectors : List (String × Embedding)} {cache : EmbeddingCache}
    {key : String} (holds : (keep clock i vectors cache).Holds key vector) :
    cache.Holds key vector ∨ ∃ text, key = EmbeddingCache.keyOf text ∧ (text, vector) ∈ vectors := by
  induction vectors generalizing i cache with
  | nil => exact .inl holds
  | cons pair vectors ih =>
    rcases ih holds with before | ⟨text, keyed, later⟩
    · rcases Cache.Holds.of_set before with ⟨keyed, rfl⟩ | before
      · exact .inr ⟨pair.1, keyed, List.mem_cons_self⟩
      · exact .inl before
    · exact .inr ⟨text, keyed, List.mem_cons_of_mem pair later⟩

theorem mem_missing {found : List (Option Embedding)} :
    text ∈ missing texts found ↔ (text, none) ∈ texts.zip found := by
  simp [missing, List.mem_eraseDups]

/-- What the provider answers to texts, if there is one and the answer has the right shape. -/
def provided (embedder : Embedder) (texts : List String) : Option (List Embedding) :=
  embedder.provider.bind fun provider =>
    (provider.answer embedder.asked texts).filter (isWellFormed · texts.length embedder.dimension)

theorem of_provided {vectors : List Embedding} (answered : embedder.provided texts = some vectors) :
    vectors.length = texts.length ∧ ∀ vector ∈ vectors, vector.length = embedder.dimension := by
  obtain ⟨_, _, answered⟩ := Option.bind_eq_some_iff.mp answered
  simpa [isWellFormed] using (Option.filter_eq_some_iff.mp answered).2

/-- The vectors that are computed for texts: the provider's, else hashes. -/
def computed (embedder : Embedder) (texts : List String) : List Embedding :=
  (embedder.provided texts).getD (embedder.hashVectors texts)

theorem computed_shape (embedder : Embedder) (texts : List String) :
    (embedder.computed texts).length = texts.length ∧
      ∀ vector ∈ embedder.computed texts, vector.length = embedder.dimension := by
  unfold computed
  cases answered : embedder.provided texts with
  | some vectors => exact of_provided answered
  | none => simp [hashVectors]

/-- What is computed may be kept unless there is a provider and it was at fault. -/
def keepable (embedder : Embedder) (texts : List String) : Bool :=
  embedder.provider.isNone || (embedder.provided texts).isSome

theorem compute_eq (embedder : Embedder) (texts : List String) :
    embedder.compute texts =
      (embedder.computed texts, embedder.keepable texts,
        { embedder with
          asked := if embedder.provider.isNone then embedder.asked else embedder.asked ++ [texts]
          fallbackBatches :=
            if embedder.keepable texts then embedder.fallbackBatches
            else embedder.fallbackBatches + 1 }) := by
  obtain ⟨provider, dimension, cache, fallbackBatches, asked⟩ := embedder
  unfold compute computed keepable provided
  cases provider with
  | none => rfl
  | some provider =>
    dsimp only [Option.bind_some]
    split
    · next answered => simp [answered]
    · next failed => simp [failed, hashVectors]

/-- The texts that are not found. -/
def misses (embedder : Embedder) (clock : Nat → Nat) (texts : List String) : List String :=
  missing texts (lookUp embedder.dimension clock 0 texts embedder.cache).1

/-- What is kept in the end. -/
def written (embedder : Embedder) (misses : List String) : List (String × Embedding) :=
  if embedder.keepable misses then misses.zip (embedder.computed misses) else []

/-- Every text has the vector that was found for it, else the one that was computed for it. -/
theorem embedDuring_eq (embedder : Embedder) (clock : Nat → Nat) (texts : List String) :
    let looked := lookUp embedder.dimension clock 0 texts embedder.cache
    let misses := embedder.misses clock texts
    let computed := misses.zip (embedder.computed misses)
    embedder.embedDuring clock texts =
      ((texts.zip looked.1).map fun asked => (asked.2.or (computed.lookup asked.1)).getD [],
        { embedder with
          cache := keep clock texts.length (embedder.written misses) looked.2
          asked :=
            if embedder.provider.isNone || misses.isEmpty then embedder.asked
            else embedder.asked ++ [misses]
          fallbackBatches :=
            if embedder.keepable misses || misses.isEmpty then embedder.fallbackBatches
            else embedder.fallbackBatches + 1 }) := by
  intro looked misses computed
  have missed : missing texts looked.1 = misses := rfl
  unfold embedDuring
  dsimp only
  rw [missed]
  cases none : misses.isEmpty with
  | true =>
    have nothing : misses = [] := List.isEmpty_iff.mp none
    have alone : (texts.zip looked.1).map (·.2) = looked.1 :=
      List.map_snd_zip (Nat.le_of_eq (length_lookUp ..))
    simp only [computed, nothing, written, List.zip_nil_left, List.lookup_nil, Option.or_none,
      ite_self, keep, Bool.or_true, if_true]
    conv => lhs; rw [← alone, List.map_map]
    rfl
  | false =>
    have same : ({ embedder with cache := looked.2 } : Embedder).keepable misses =
      embedder.keepable misses := rfl
    rw [if_neg Bool.false_ne_true, compute_eq, same]
    unfold written
    cases embedder.keepable misses <;> simp only [Bool.or_false] <;> rfl

/-- A text that is listed is the first of its kind somewhere, and there stands its vector. -/
theorem exists_lookup_zip {vectors : List Embedding} (listed : text ∈ texts)
    (enough : vectors.length = texts.length) :
    ∃ (number : Nat) (vector : Embedding), texts[number]? = some text ∧ vectors[number]? = some vector ∧
      (texts.zip vectors).lookup text = some vector := by
  induction texts generalizing vectors with
  | nil => cases listed
  | cons first texts ih =>
    obtain ⟨vector, vectors, rfl⟩ := List.exists_cons_of_length_eq_add_one enough
    by_cases same : text = first
    · subst same
      exact ⟨0, vector, rfl, rfl, List.lookup_cons_self⟩
    · have later := (List.mem_cons.mp listed).resolve_left same
      obtain ⟨number, other, asked, answered, found⟩ := ih later (Nat.succ.inj enough)
      refine ⟨number + 1, other, asked, answered, ?_⟩
      rw [List.zip_cons_cons, List.lookup_cons, beq_false_of_ne same]
      exact found

theorem exists_computed (embedder : Embedder) {misses : List String} (missed : text ∈ misses) :
    ∃ (number : Nat) (vector : Embedding), misses[number]? = some text ∧
      (embedder.computed misses)[number]? = some vector ∧
      (misses.zip (embedder.computed misses)).lookup text = some vector :=
  exists_lookup_zip missed (embedder.computed_shape misses).1

/-- Whatever the clock shows, there is a vector for each text, and each has the right dimension. -/
theorem embedDuring_shape (embedder : Embedder) (clock : Nat → Nat) (texts : List String) :
    (embedder.embedDuring clock texts).1.length = texts.length ∧
      ∀ vector ∈ (embedder.embedDuring clock texts).1, vector.length = embedder.dimension := by
  rw [embedDuring_eq]
  constructor
  · simp [length_lookUp]
  · intro vector member
    obtain ⟨⟨text, found⟩, asked, rfl⟩ := List.mem_map.mp member
    cases found with
    | some vector => exact (of_mem_lookUp asked).2
    | none =>
      obtain ⟨number, vector, _, computed, found⟩ :=
        embedder.exists_computed (mem_missing.mpr asked)
      dsimp only
      rw [misses, found]
      exact (embedder.computed_shape _).2 vector (List.mem_of_getElem? computed)

/-- What an embedder holds afterwards it held before or has computed. -/
theorem holds_of_embedDuring {key : String}
    (holds : (embedder.embedDuring clock texts).2.cache.Holds key vector) :
    embedder.cache.Holds key vector ∨ ∃ text, key = EmbeddingCache.keyOf text ∧
      (text, vector) ∈ embedder.written (embedder.misses clock texts) := by
  rw [embedDuring_eq] at holds
  exact (holds_of_keep holds).imp_left holds_of_lookUp

end CodeAtlas.Embedder

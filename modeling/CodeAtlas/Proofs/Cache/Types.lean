import CodeAtlas.Proofs.Cache.Balance
import CodeAtlas.Proofs.Cache.Questions
import CodeAtlas.Proofs.Pattern.Literal
import CodeAtlas.Proofs.Text.Colon

namespace CodeAtlas.QueryCache

open Pattern

variable {α : Type}

/-- What a cache of answers is asked to do. -/
inductive Step (α : Type) where
  | insert (type : String) (parameters : Json) (answer : α)
  | find (type : String) (parameters : Json)
  | removeType (type : String)
  | clear

/-- The cache after a step at a time. -/
def after [PatternLimit] (cache : QueryCache α) (now : Nat) : Step α → QueryCache α
  | .insert type parameters answer => cache.insert now type parameters answer
  | .find type parameters => (cache.find now type parameters).2
  | .removeType type => ((cache.removeType? type).map (·.2)).getD cache
  | .clear => cache.clear.2

def afterAll [PatternLimit] (cache : QueryCache α) (history : List (Nat × Step α)) : QueryCache α :=
  history.foldl (fun cache event => cache.after event.1 event.2) cache

/-- The entry holds an answer that was inserted for a question of a type. -/
def IsOfType (history : List (Nat × Step α)) (type : String) (entry : CacheEntry α) : Prop :=
  ∃ now parameters, (now, Step.insert type parameters entry.value) ∈ history ∧
    entry.key = keyOf type parameters

section Keys

variable {type other : String} {parameters : Json}

/-- The key of a question of the other type begins with the type and a colon although the types differ:
either the other type begins so, or the type is the other one with a colon and so much of the parameters
that a colon comes next. -/
def Shadows (type other : String) (parameters : Json) : Prop :=
  other.startsWith (type ++ ":") = true ∨
    ∃ more, type = other ++ ":" ++ more ∧ parameters.render.startsWith (more ++ ":") = true

/-- Types without colons are told apart. -/
theorem Shadows.colon (shadows : Shadows type other parameters) :
    ':' ∈ type.toList ∨ ':' ∈ other.toList := by
  rcases shadows with longer | ⟨more, rfl, _⟩
  · exact .inr (not_not.mp fun plain => Text.not_startsWith_colon plain longer)
  · exact .inl (by simp)

theorem not_shadows_self : ¬ Shadows type type parameters := by
  rintro (longer | ⟨more, longer, _⟩)
  · have := (String.startsWith_string_iff.mp longer).length_le
    simp at this
  · have := congrArg (List.length ∘ String.toList) longer
    simp at this

theorem startsWith_keyOf_iff :
    (keyOf other parameters).startsWith (type ++ ":") = true ↔
      type = other ∨ Shadows type other parameters :=
  Text.startsWith_append_colon_iff

end Keys

/-- The pattern for a type is not too large. -/
def Accepted [PatternLimit] (type : String) : Prop :=
  PatternLimit.accepts (startingWith (type.toList ++ [':'])) = true

instance [PatternLimit] (type : String) : Decidable (Accepted type) :=
  inferInstanceAs (Decidable (_ = true))

theorem parse?_typePattern [PatternLimit] (type : String) :
    parse? (typePattern type) =
      if Accepted type then some (startingWith (type.toList ++ [':'])) else none := by
  have text : (typePattern type).toList = '^' :: (type.toList ++ [':']).flatMap escapeChar := by
    rw [typePattern, String.toList_append, String.toList_append, toList_escapeText,
      List.flatMap_append]
    rfl
  exact parse?_startingWith (by simp) text

/-- The pattern for a type finds the keys that begin with the type and a colon. -/
theorem removeType?_eq [PatternLimit] (cache : QueryCache α) (type : String) :
    cache.removeType? type =
      if Accepted type then some (cache.removeType type) else none := by
  have begins : (startingWith (type.toList ++ [':'])).occursIn =
      fun key => key.startsWith (type ++ ":") := by
    funext key
    rw [occursIn_startingWith, Bool.eq_iff_iff, List.isPrefixOf_iff_prefix,
      String.startsWith_string_iff, String.toList_append]
    rfl
  rw [removeType?, Cache.invalidate?, parse?_typePattern]
  split
  · rw [Option.map_some, begins]
    rfl
  · rfl

/-- The cache lost the entries that satisfy `gone`, `count` of them, and is otherwise as it was. -/
structure Drops (cache : QueryCache α) (count : Nat) (after : QueryCache α)
    (gone : CacheEntry α → Prop) : Prop where
  same : after = { cache with entries := after.entries }
  ordered : after.entries.Sublist cache.entries
  stays : ∀ entry ∈ cache.entries, entry ∈ after.entries ↔ ¬ gone entry
  counted : count + after.entries.length = cache.entries.length

variable {cache after : QueryCache α} {count : Nat} {gone gone' : CacheEntry α → Prop}

theorem drops_removeType (cache : QueryCache α) (type : String) :
    Drops cache (cache.removeType type).1 (cache.removeType type).2
      fun entry => entry.key.startsWith (type ++ ":") = true where
  same := rfl
  ordered := List.filter_sublist
  stays entry member := by simp [removeType, Cache.removeWhere, member]
  counted := by
    have split := cache.entries.length_eq_length_filter_add fun entry =>
      entry.key.startsWith (type ++ ":")
    rw [← List.countP_eq_length_filter] at split
    exact split.symm

theorem Drops.congr (drops : Drops cache count after gone)
    (told : ∀ entry ∈ cache.entries, gone entry ↔ gone' entry) : Drops cache count after gone' :=
  { drops with
    stays := fun entry member => (drops.stays entry member).trans (not_congr (told entry member)) }

theorem Drops.iff (drops : Drops cache count after gone) (drops' : Drops cache count after gone') :
    ∀ entry ∈ cache.entries, gone entry ↔ gone' entry := fun entry member =>
  not_iff_not.mp ((drops.stays entry member).symm.trans (drops'.stays entry member))

section Runs

variable {history : List (Nat × Step α)} {key : String} {value : α}

/-- What a step asks of the keys. -/
def Step.onKeys : Step α → Cache.Step α
  | .insert type parameters answer => .set (keyOf type parameters) answer
  | .find type parameters => .get (keyOf type parameters)
  | .removeType type => .invalidate (typePattern type)
  | .clear => .clear

theorem afterAll_eq [PatternLimit] (cache : QueryCache α) (history : List (Nat × Step α)) :
    cache.afterAll history =
      Cache.afterAll cache (history.map fun event => (event.1, event.2.onKeys)) := by
  have same : ∀ (cache : QueryCache α) (event : Nat × Step α),
      cache.after event.1 event.2 = Cache.after cache event.1 event.2.onKeys := by
    rintro cache ⟨_, step⟩
    cases step <;> rfl
  simp only [afterAll, Cache.afterAll, List.foldl_map, same]

theorem Step.of_written? {step : Step α} (written : step.onKeys.written? key = some value) :
    ∃ type parameters, step = .insert type parameters value ∧ key = keyOf type parameters := by
  cases step with
  | insert type parameters answer =>
    obtain ⟨keyed, valued⟩ := Option.ite_none_right_eq_some.mp written
    obtain rfl := Option.some.inj valued
    exact ⟨type, parameters, rfl, keyed.symm⟩
  | find | removeType | clear => cases written

/-- What is held was inserted, since it was written last under its key. -/
theorem inserted_of_holds [PatternLimit] (capacity ttl : Nat) (history : List (Nat × Step α))
    (holds : (afterAll (Cache.new capacity ttl) history).Holds key value) :
    ∃ now type parameters, (now, Step.insert type parameters value) ∈ history ∧
      key = keyOf type parameters := by
  rw [afterAll_eq] at holds
  obtain ⟨_, member, written⟩ :=
    List.exists_of_findSome?_eq_some (Cache.lastWritten?_of_holds capacity ttl holds)
  obtain ⟨⟨now, step⟩, asked, rfl⟩ := List.mem_map.mp (List.mem_reverse.mp member)
  obtain ⟨type, parameters, rfl, keyed⟩ := Step.of_written? written
  exact ⟨now, type, parameters, asked, keyed⟩

theorem exists_isOfType [PatternLimit] {capacity ttl : Nat} {entry : CacheEntry α}
    (member : entry ∈ (afterAll (Cache.new capacity ttl) history).entries) :
    ∃ type, IsOfType history type entry := by
  obtain ⟨now, type, parameters, inserted, keyed⟩ :=
    inserted_of_holds capacity ttl history ⟨entry, member, rfl, rfl⟩
  exact ⟨type, now, parameters, inserted, keyed⟩

end Runs

/-- The key of the entry begins with a type and a colon although its question is of another type. -/
def IsShadowed (type : String) (entry : CacheEntry α) : Prop :=
  ∃ other parameters, entry.key = keyOf other parameters ∧ Shadows type other parameters

section Entries

variable {history : List (Nat × Step α)} {type other : String} {entry : CacheEntry α}

theorem IsOfType.unique (here : IsOfType history type entry) (there : IsOfType history other entry) :
    type = other := by
  obtain ⟨_, _, _, keyed⟩ := here
  obtain ⟨_, _, _, keyed'⟩ := there
  exact type_eq_of_keyOf_eq (keyed.symm.trans keyed')

theorem IsOfType.not_isShadowed (here : IsOfType history type entry) : ¬ IsShadowed type entry := by
  rintro ⟨other, parameters, keyed, shadows⟩
  obtain ⟨_, _, _, keyed'⟩ := here
  obtain rfl := type_eq_of_keyOf_eq (keyed'.symm.trans keyed)
  exact not_shadows_self shadows

theorem IsShadowed.colon (shadowed : IsShadowed type entry) (there : IsOfType history other entry) :
    ':' ∈ type.toList ∨ ':' ∈ other.toList := by
  obtain ⟨own, parameters, keyed, shadows⟩ := shadowed
  obtain ⟨_, _, _, keyed'⟩ := there
  obtain rfl := type_eq_of_keyOf_eq (keyed.symm.trans keyed')
  exact shadows.colon

theorem startsWith_key_iff (known : ∃ own, IsOfType history own entry) :
    entry.key.startsWith (type ++ ":") = true ↔
      IsOfType history type entry ∨ IsShadowed type entry := by
  obtain ⟨own, now, parameters, inserted, keyed⟩ := known
  constructor
  · intro begins
    rw [keyed, startsWith_keyOf_iff] at begins
    rcases begins with rfl | shadows
    · exact .inl ⟨now, parameters, inserted, keyed⟩
    · exact .inr ⟨own, parameters, keyed, shadows⟩
  · rintro (⟨_, parameters, _, keyed⟩ | ⟨other, parameters, keyed, shadows⟩)
    · rw [keyed]
      exact startsWith_keyOf_iff.mpr (.inl rfl)
    · rw [keyed]
      exact startsWith_keyOf_iff.mpr (.inr shadows)

end Entries

/-- Whatever a cache of answers was asked, each of its entries is of one type. Dropping a type drops the
entries of this type and those whose keys begin as if they were, unless its pattern is too large; then it
fails and drops nothing. So it does what it should if and only if the pattern is accepted and there are no
entries of the second sort, as it is where no type has a colon; all others stay as they are, in their
order. -/
theorem removeType?_iff [PatternLimit] (capacity ttl : Nat) (history : List (Nat × Step α)) (type : String) :
    let cache : QueryCache α := afterAll (Cache.new capacity ttl) history
    (∀ entry ∈ cache.entries, ∃! own, IsOfType history own entry) ∧
      (if Accepted type then
        ∃ count after, cache.removeType? type = some (count, after) ∧
          Drops cache count after fun entry => IsOfType history type entry ∨ IsShadowed type entry
      else cache.removeType? type = none) ∧
      ((∃ count after, cache.removeType? type = some (count, after) ∧
          Drops cache count after (IsOfType history type)) ↔
        Accepted type ∧ ∀ entry ∈ cache.entries, ¬ IsShadowed type entry) ∧
      (':' ∉ type.toList →
        (∀ entry ∈ cache.entries, ∀ own, IsOfType history own entry → ':' ∉ own.toList) →
        ∀ entry ∈ cache.entries, ¬ IsShadowed type entry) := by
  intro cache
  have known : ∀ entry ∈ cache.entries, ∃ own, IsOfType history own entry :=
    fun _ member => exists_isOfType member
  have drops := (drops_removeType cache type).congr
    fun entry member => startsWith_key_iff (known entry member)
  refine ⟨fun entry member => ?_, ?_, ?_, fun plain others entry member shadowed => ?_⟩
  · obtain ⟨own, here⟩ := known entry member
    exact ⟨own, here, fun other there => there.unique here⟩
  · rw [removeType?_eq]
    split
    · exact ⟨_, _, rfl, drops⟩
    · rfl
  · rw [removeType?_eq]
    split
    · next fits =>
      constructor
      · rintro ⟨count, after, ran, exact⟩
        obtain ⟨rfl, rfl⟩ := Prod.mk.inj (Option.some.inj ran)
        refine ⟨fits, fun entry member shadowed => ?_⟩
        have here : IsOfType history type entry := (drops.iff exact entry member).mp (.inr shadowed)
        exact here.not_isShadowed shadowed
      · rintro ⟨_, clear⟩
        exact ⟨_, _, rfl, drops.congr fun entry member => or_iff_left (clear entry member)⟩
    · next large =>
      constructor
      · rintro ⟨_, _, ran, _⟩
        cases ran
      · exact fun ⟨fits, _⟩ => absurd fits large
  · obtain ⟨own, here⟩ := known entry member
    exact (shadowed.colon here).elim plain (others entry member own here)

/-- A point in a type stands for itself, so another type of the same length stays. -/
theorem removeType?_iff_point :
    let history : List (Nat × Step Nat) :=
      [(0, .insert "a.b" (.bool true) 1), (1, .insert "axb" .null 2), (2, .find "a.b" (.bool true))]
    let cache : QueryCache Nat := afterAll (Cache.new 4 10) history
    ∃ after, cache.removeType? "a.b" = some (1, after) ∧
      Drops cache 1 after (IsOfType history "a.b") ∧ after.entries = [⟨"axb:null", 2, 1, 0⟩] := by
  intro history cache
  have computed : cache.removeType? "a.b" =
      some (1, { cache with entries := [⟨"axb:null", 2, 1, 0⟩] }) := by
    rw [removeType?_eq]
    decide +kernel
  have plain : ∀ entry ∈ cache.entries, ∀ own, IsOfType history own entry → ':' ∉ own.toList := by
    rintro entry _ own ⟨now, parameters, inserted, _⟩
    have asked : own = "a.b" ∨ own = "axb" := by
      simp only [history, List.mem_cons, Prod.mk.injEq, Step.insert.injEq, List.not_mem_nil] at inserted
      tauto
    rcases asked with rfl | rfl <;> decide
  obtain ⟨_, _, exact, distinct⟩ := removeType?_iff 4 10 history "a.b"
  have clear := distinct (by decide) plain
  obtain ⟨count, after, ran, drops⟩ := exact.mpr ⟨by decide +kernel, clear⟩
  obtain ⟨rfl, rfl⟩ := Prod.mk.inj (Option.some.inj (computed.symm.trans ran))
  exact ⟨_, computed, drops, rfl⟩

/-- The answer to a question of the type `a:b` goes with those of the type `a`, of which there are none. -/
theorem removeType?_takes_other :
    let history : List (Nat × Step Nat) := [(0, .insert "a:b" (.bool true) 1)]
    let cache : QueryCache Nat := afterAll (Cache.new 4 10) history
    cache.removeType? "a" = some (1, Cache.new 4 10) ∧
      ¬ ∃ count after, cache.removeType? "a" = some (count, after) ∧
        Drops cache count after (IsOfType history "a") := by
  intro history cache
  have entries : cache.entries = [⟨"a:b:true", 1, 0, 0⟩] := by decide +kernel
  have ran : cache.removeType? "a" = some (1, Cache.new 4 10) := by
    rw [removeType?_eq]
    decide +kernel
  refine ⟨ran, ?_⟩
  rintro ⟨count, after, ran', drops⟩
  obtain ⟨rfl, rfl⟩ := Prod.mk.inj (Option.some.inj (ran.symm.trans ran'))
  have here : (⟨"a:b:true", 1, 0, 0⟩ : CacheEntry Nat) ∈ cache.entries := by
    rw [entries]
    exact List.mem_cons_self
  have gone : IsOfType history "a" ⟨"a:b:true", 1, 0, 0⟩ := by
    by_contra other
    cases (drops.stays _ here).mpr other
  obtain ⟨_, _, inserted, _⟩ := gone
  simp [history] at inserted

end CodeAtlas.QueryCache

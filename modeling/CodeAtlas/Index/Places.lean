import Std.Data.ExtHashMap

namespace CodeAtlas

open Std (ExtHashMap)

/-- Ids are the same if they are equal, whichever orders of texts are at hand. -/
instance equivBEqIds : EquivBEq String := equivBEq_of_iff_apply_eq id fun _ _ => beq_iff_eq

instance lawfulHashableIds : LawfulHashable String where
  hash_eq _ _ same := congrArg hash (eq_of_beq same)

/-- The dictionary knows of every id where it stands, and knows no other id. -/
def Locates (map : ExtHashMap String Nat) (ids : List String) : Prop :=
  ∀ (id : String) (place : Nat), map[id]? = some place ↔ ids[place]? = some id

namespace Locates

variable {map : ExtHashMap String Nat} {ids : List String}

/-- It is enough that the dictionary knows the place of every id and no more ids than there are. -/
theorem of_known
    (known : ∀ (id : String) (place : Nat), ids[place]? = some id → map[id]? = some place)
    (unknown : ∀ id ∉ ids, map[id]? = none) : Locates map ids := by
  intro id place
  refine ⟨fun found => ?_, known id place⟩
  by_cases member : id ∈ ids
  · obtain ⟨other, atOther⟩ := List.mem_iff_getElem?.mp member
    have same := known id other atOther
    rw [found] at same
    rwa [Option.some.inj same]
  · rw [unknown id member] at found
    cases found

/-- No id stands at two places. -/
theorem place_unique (locates : Locates map ids) {id : String} {first second : Nat}
    (atFirst : ids[first]? = some id) (atSecond : ids[second]? = some id) : first = second :=
  Option.some.inj (((locates id first).mpr atFirst).symm.trans ((locates id second).mpr atSecond))

theorem nodup (locates : Locates map ids) : ids.Nodup := by
  rw [List.nodup_iff_pairwise_ne, List.pairwise_iff_getElem]
  intro first second inFirst inSecond before same
  have atSecond : ids[second]? = some ids[first] := by
    rw [same]
    exact List.getElem?_eq_getElem inSecond
  have unique := locates.place_unique (List.getElem?_eq_getElem inFirst) atSecond
  omega

theorem eq_none_iff (locates : Locates map ids) {id : String} : map[id]? = none ↔ id ∉ ids := by
  rw [List.mem_iff_getElem?, Option.eq_none_iff_forall_ne_some, not_exists]
  exact forall_congr' fun place => not_congr (locates id place)

protected theorem nil : Locates ∅ [] := by
  intro id place
  simp

/-- A new id stands at the end. -/
theorem snoc {id : String} (locates : Locates map ids) (absent : id ∉ ids) :
    Locates (map.insert id ids.length) (ids ++ [id]) := by
  refine of_known ?_ ?_
  · intro other place atPlace
    rw [ExtHashMap.getElem?_insert]
    rcases Nat.lt_or_ge place ids.length with old | new
    · rw [List.getElem?_append_left old] at atPlace
      have different : id ≠ other := by
        rintro rfl
        exact absent (List.mem_of_getElem? atPlace)
      simpa [different] using (locates other place).mpr atPlace
    · rw [List.getElem?_append_right new, List.getElem?_singleton] at atPlace
      split at atPlace
      · obtain rfl := Option.some.inj atPlace
        have last : ids.length = place := by omega
        simp [last]
      · cases atPlace
  · intro other outside
    rw [List.mem_append, List.mem_singleton, not_or] at outside
    rw [ExtHashMap.getElem?_insert]
    simpa [Ne.symm outside.2] using locates.eq_none_iff.mpr outside.1

/-- A dictionary that is set up anew. -/
theorem ofList (distinct : ids.Nodup) : Locates (ExtHashMap.ofList ids.zipIdx) ids := by
  refine of_known ?_ ?_
  · intro id place atPlace
    refine ExtHashMap.getElem?_ofList_of_mem (beq_self_eq_true id) ?_
      (List.mk_mem_zipIdx_iff_getElem?.mpr atPlace)
    have apart : (ids.zipIdx.map Prod.fst).Pairwise fun first second =>
        (first == second) = false := by
      rw [List.zipIdx_map_fst]
      exact distinct.imp fun different => beq_eq_false_iff_ne.mpr different
    exact List.pairwise_map.mp apart
  · intro id outside
    apply ExtHashMap.getElem?_ofList_of_contains_eq_false
    rw [List.zipIdx_map_fst]
    simpa using outside

end Locates

/-- Moves ids one place to the front. -/
def moveUp (map : ExtHashMap String Nat) (ids : List String) : ExtHashMap String Nat :=
  ids.foldl (fun map id => map.modify id (· - 1)) map

theorem getElem?_moveUp_of_not_mem (map : ExtHashMap String Nat) {ids : List String} {id : String}
    (outside : id ∉ ids) : (moveUp map ids)[id]? = map[id]? := by
  induction ids generalizing map with
  | nil => rfl
  | cons first ids ih =>
    rw [List.mem_cons, not_or] at outside
    have step := ih (map.modify first (· - 1)) outside.2
    rw [ExtHashMap.getElem?_modify, if_neg (by simpa using Ne.symm outside.1)] at step
    exact step

theorem getElem?_moveUp_of_mem (map : ExtHashMap String Nat) {ids : List String} {id : String}
    (distinct : ids.Nodup) (member : id ∈ ids) :
    (moveUp map ids)[id]? = map[id]?.map (· - 1) := by
  induction ids generalizing map with
  | nil => cases member
  | cons first ids ih =>
    obtain ⟨fresh, rest⟩ := List.nodup_cons.mp distinct
    change (moveUp (map.modify first (· - 1)) ids)[id]? = _
    rcases List.mem_cons.mp member with rfl | later
    · rw [getElem?_moveUp_of_not_mem _ fresh, ExtHashMap.getElem?_modify_self]
    · have different : first ≠ id := fun same => fresh (same ▸ later)
      rw [ih _ rest later, ExtHashMap.getElem?_modify, if_neg (by simpa using different)]

/-- When an id is taken out, those after it move up. -/
theorem Locates.eraseIdx {map : ExtHashMap String Nat} {ids : List String} {id : String}
    {place : Nat} (locates : Locates map ids) (atPlace : ids[place]? = some id) :
    Locates (moveUp (map.erase id) ((ids.eraseIdx place).drop place)) (ids.eraseIdx place) := by
  have distinct : (ids.eraseIdx place).Nodup := locates.nodup.sublist (List.eraseIdx_sublist ..)
  have gone : id ∉ ids.eraseIdx place := by
    rw [List.mem_eraseIdx_iff_getElem?]
    rintro ⟨other, different, atOther⟩
    exact different (locates.place_unique atOther atPlace)
  refine of_known ?_ ?_
  · intro other new atNew
    have different : id ≠ other := by
      rintro rfl
      exact gone (List.mem_of_getElem? atNew)
    have kept : (map.erase id)[other]? = map[other]? := by
      simp [ExtHashMap.getElem?_erase, different]
    rcases Nat.lt_or_ge new place with before | after
    · rw [List.getElem?_eraseIdx_of_lt before] at atNew
      have outside : other ∉ (ids.eraseIdx place).drop place := by
        rw [List.mem_iff_getElem?]
        rintro ⟨offset, atOffset⟩
        rw [List.getElem?_drop, List.getElem?_eraseIdx_of_ge (by omega)] at atOffset
        have unique := locates.place_unique atNew atOffset
        omega
      rw [getElem?_moveUp_of_not_mem _ outside, kept]
      exact (locates other new).mpr atNew
    · have member : other ∈ (ids.eraseIdx place).drop place := by
        refine List.mem_iff_getElem?.mpr ⟨new - place, ?_⟩
        rwa [List.getElem?_drop, Nat.add_sub_cancel' after]
      rw [List.getElem?_eraseIdx_of_ge after] at atNew
      rw [getElem?_moveUp_of_mem _ (distinct.sublist (List.drop_sublist ..)) member, kept,
        (locates other (new + 1)).mpr atNew]
      rfl
  · intro other outside
    rw [getElem?_moveUp_of_not_mem _ (fun member => outside (List.mem_of_mem_drop member)),
      ExtHashMap.getElem?_erase]
    split
    · rfl
    · next different =>
      rw [locates.eq_none_iff]
      intro member
      obtain ⟨old, atOld⟩ := List.mem_iff_getElem?.mp member
      refine outside (List.mem_eraseIdx_iff_getElem?.mpr ⟨old, ?_, atOld⟩)
      rintro rfl
      simp [Option.some.inj (atPlace.symm.trans atOld)] at different

/-- Where each of some ids stands. -/
class Places (ids : List String) where
  map : ExtHashMap String Nat
  locates : Locates map ids

namespace Places

variable {ids : List String}

instance none : Places [] where
  map := ∅
  locates := .nil

@[reducible] def congr {others : List String} (same : ids = others) (places : Places ids) :
    Places others where
  map := places.map
  locates := same ▸ places.locates

/-- The places of an id that comes in at the end. -/
@[reducible] def snoc (places : Places ids) {id : String}
    (unknown : places.map[id]? = Option.none) : Places (ids ++ [id]) where
  map := places.map.insert id ids.length
  locates := places.locates.snoc (places.locates.eq_none_iff.mp unknown)

/-- The places when an id is taken out. -/
@[reducible] def eraseIdx (places : Places ids) {id : String} {place : Nat}
    (known : places.map[id]? = some place) : Places (ids.eraseIdx place) where
  map := moveUp (places.map.erase id) ((ids.eraseIdx place).drop place)
  locates := places.locates.eraseIdx ((places.locates id place).mp known)

/-- The places of different ids, whatever was known before. -/
@[reducible] def ofList (distinct : ids.Nodup) : Places ids where
  map := .ofList ids.zipIdx
  locates := .ofList distinct

end Places

end CodeAtlas

import CodeAtlas.Cache.Query
import CodeAtlas.Proofs.Json.Nesting

namespace CodeAtlas.QueryCache

variable {first second : String} {parameters others : Json}

theorem toList_keyOf (type : String) (parameters : Json) :
    (keyOf type parameters).toList = type.toList ++ ':' :: parameters.render.toList := by
  simp [keyOf]

/-- Of two questions with one key neither has a longer type, since the parameters of the other one
would end with a colon and the text of a value. -/
theorem eq_of_keyOf_eq_of_append {more : List Char} (longer : second.toList = first.toList ++ more)
    (same : keyOf first parameters = keyOf second others) : first = second := by
  cases more with
  | nil => exact (String.toList_injective (longer.trans (List.append_nil _))).symm
  | cons c more =>
    have characters := congrArg String.toList same
    rw [toList_keyOf, toList_keyOf, longer, List.append_assoc] at characters
    have rest := (List.cons.inj (List.append_cancel_left characters)).2
    exact absurd rest (Json.render_ne_append_colon _ _ _)

theorem type_eq_of_keyOf_eq (same : keyOf first parameters = keyOf second others) :
    first = second := by
  have characters := congrArg String.toList same
  rw [toList_keyOf, toList_keyOf] at characters
  rcases List.append_eq_append_iff.mp characters with ⟨_, longer, _⟩ | ⟨_, longer, _⟩
  · exact eq_of_keyOf_eq_of_append longer same
  · exact (eq_of_keyOf_eq_of_append longer same.symm).symm

theorem render_eq_of_keyOf_eq (same : keyOf first parameters = keyOf first others) :
    parameters.render = others.render := by
  have characters := congrArg String.toList same
  rw [toList_keyOf, toList_keyOf] at characters
  exact String.toList_injective (List.cons.inj (List.append_cancel_left characters)).2

/-- Two questions have one key if and only if they have one type and their parameters one text. Where
the parameters are strings, these are the same. -/
theorem keyOf_eq_iff (first second : String) (parameters others : Json) :
    (keyOf first parameters = keyOf second others ↔
        first = second ∧ parameters.render = others.render) ∧
      ∀ id id', keyOf first (.string id) = keyOf second (.string id') ↔
        first = second ∧ id = id' := by
  refine ⟨⟨fun same => ?_, fun ⟨types, texts⟩ => ?_⟩, fun id id' => ⟨fun same => ?_, ?_⟩⟩
  · obtain rfl := type_eq_of_keyOf_eq same
    exact ⟨rfl, render_eq_of_keyOf_eq same⟩
  · rw [keyOf, keyOf, types, texts]
  · obtain rfl := type_eq_of_keyOf_eq same
    have quoted := render_eq_of_keyOf_eq same
    rw [Json.render, Json.render] at quoted
    exact ⟨rfl, Json.quote_injective quoted⟩
  · rintro ⟨rfl, rfl⟩
    rfl

end CodeAtlas.QueryCache

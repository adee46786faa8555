/-
A mapping does not depend on blanks around texts.

Texts are trimmed before anything is read off them, so an element is like itself with its text and
those of all elements in it trimmed beforehand, and both map to the same
(`Mapping.ofElement_trimmed`).
-/
import PersistenceMapping.Proofs.Mapping.Congruence
import PersistenceMapping.Proofs.Schema.Relaid

namespace PersistenceMapping

namespace BoundElement

mutual

theorem alike_trimmed (schema : Schema) : (e : BoundElement) → Alike schema e e.trimmed
  | .mk _ _ children text =>
    .mk (fun _ => Or.inl rfl) (alike_trimmedAll schema children) (trim_trim text)

theorem alike_trimmedAll (schema : Schema) :
    (es : List BoundElement) → List.Forall₂ (Alike schema) es (trimmedAll es)
  | [] => .nil
  | e :: es => .cons (alike_trimmed schema e) (alike_trimmedAll schema es)

end

end BoundElement

/-- A mapping is the same once the texts of its element and of all elements in it are trimmed. -/
theorem Mapping.ofElement_trimmed (e : BoundElement) : ofElement e.trimmed = ofElement e :=
  ofElement_congr (e.alike_trimmed _)

namespace Schema

/-- Relaid streams describe the same mapping, or are refused for the same fault. -/
theorem unmarshal_relaid {schema : Schema} {validate : Bool} {texts : List (String × String)}
    {items items' : List Outcome} {failure : Option TokenError}
    (h : Relaid schema.carriesText texts items items') :
    schema.unmarshal validate { items := items', failure } =
      schema.unmarshal validate { items, failure } := by
  have hmapping : ∀ result : Except BindFault BoundElement,
      result.map Mapping.ofElement = (result.map BoundElement.trimmed).map Mapping.ofElement := by
    intro result
    cases result with
    | error fault => rfl
    | ok e => exact congrArg Except.ok (Mapping.ofElement_trimmed e).symm
  rw [unmarshal, unmarshal, hmapping, bind_relaid h, ← hmapping]

end Schema

end PersistenceMapping

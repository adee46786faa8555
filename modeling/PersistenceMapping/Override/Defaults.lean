/-
Defaults of mapped classes, in layers.

A layer sets some of the defaults and leaves the others unset.  One layer over another sets
what either sets, and where both do the upper one counts: `none` never covers anything, and an
explicit `false` covers a `true`.
-/
import PersistenceMapping.Error

namespace PersistenceMapping

/-! ### How the state of an object is reached -/

/-- How the state of an object is reached. -/
inductive AccessType where
  | field
  | property
  deriving DecidableEq, Repr

namespace AccessType

/-- An access type as documents write it. -/
def text : AccessType → String
  | field => "FIELD"
  | property => "PROPERTY"

/-- The access type that a text writes. -/
def ofText? (s : String) : Option AccessType :=
  if s = field.text then some .field
  else if s = property.text then some .property
  else none

@[simp] theorem ofText?_text (a : AccessType) : ofText? a.text = some a := by
  cases a <;> rfl

end AccessType

/-- An access value as it stands in a document, empty where none is written. -/
structure WrittenAccess where
  value : String
  /-- Where the value stands, as messages say it. -/
  place : String
  deriving DecidableEq, Repr

/-- The access type that a value stands for: none if it is empty, and an error if it is not the
text of an access type. -/
def WrittenAccess.read (written : WrittenAccess) : Except MappingError (Option AccessType) :=
  if written.value.isEmpty then .ok none
  else
    match AccessType.ofText? written.value with
    | some access => .ok (some access)
    | none => .error (.accessType written.value written.place)

/-! ### Layers -/

/-- One layer of defaults. -/
structure MappingDefault where
  access : Option AccessType := none
  package : Option String := none
  schema : Option String := none
  catalog : Option String := none
  /-- Whether annotations are not to be looked at. -/
  metadataComplete : Option Bool := none
  cascadePersist : Option Bool := none
  delimitedIdentifiers : Option Bool := none
  deriving DecidableEq, Repr

namespace MappingDefault

/-- A layer with another one over it. -/
def overriddenBy (lower upper : MappingDefault) : MappingDefault :=
  { access := upper.access <|> lower.access
    package := upper.package <|> lower.package
    schema := upper.schema <|> lower.schema
    catalog := upper.catalog <|> lower.catalog
    metadataComplete := upper.metadataComplete <|> lower.metadataComplete
    cascadePersist := upper.cascadePersist <|> lower.cascadePersist
    delimitedIdentifiers := upper.delimitedIdentifiers <|> lower.delimitedIdentifiers }

@[simp] theorem overriddenBy_empty (m : MappingDefault) : m.overriddenBy {} = m := by
  simp [overriddenBy]

@[simp] theorem empty_overriddenBy (m : MappingDefault) :
    ({} : MappingDefault).overriddenBy m = m := by
  simp [overriddenBy]

/-- It does not matter which of three layers are put together first. -/
theorem overriddenBy_assoc (a b c : MappingDefault) :
    (a.overriddenBy b).overriddenBy c = a.overriddenBy (b.overriddenBy c) := by
  simp [overriddenBy, Option.orElse_eq_orElse, Option.orElse_eq_or, Option.or_assoc]

/-- A layer with another one over it, if there is one. -/
def overrideWith (lower : MappingDefault) (upper : Option MappingDefault) : MappingDefault :=
  (upper.map lower.overriddenBy).getD lower

/-- Whether annotations may be looked at. -/
def canUseAnnotations (m : MappingDefault) : Bool :=
  m.metadataComplete != some true

/-- Whether nothing is set. -/
def isEmpty (m : MappingDefault) : Bool :=
  m = {}

end MappingDefault

end PersistenceMapping

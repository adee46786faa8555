/-
Where a document comes from, as messages say it.
-/
namespace PersistenceMapping

/-- The kinds of places. -/
inductive SourceType where
  | resource
  | file
  | url
  | inputStream
  | other
  deriving DecidableEq, Repr

/-- The name of a kind of place in messages. -/
def SourceType.label : SourceType → String
  | resource => "resource"
  | file => "file"
  | url => "url"
  | inputStream => "input stream"
  | other => "other"

/-- The place that a document comes from. -/
structure Origin where
  type : SourceType
  name : String
  deriving DecidableEq, Repr

/-- An origin as messages show it. -/
def Origin.description (o : Origin) : String :=
  o.type.label ++ "(" ++ o.name ++ ")"

end PersistenceMapping

/-
Definitions that accompany a mapping: parameters, tool metadata, types, filters, imports,
statements written by hand, fetch profiles and further objects of the database.
-/
import PersistenceMapping.Mapping.Element

namespace PersistenceMapping

namespace Mapping

/-- A named parameter. -/
structure Param where
  name : String
  value : String
  deriving DecidableEq, Repr

/-- The parameters of a generator or a type. -/
def paramsOf (e : BoundElement) : List Param :=
  (e.childrenNamed "param").map fun p => { name := p.mandatory "name", value := p.trimmedText }

/-- Metadata for tools. -/
structure Meta where
  attributeName : String
  value : String
  inherit : Bool
  deriving DecidableEq, Repr

/-- The metadata that an element describes. -/
def Meta.ofElement (e : BoundElement) : Meta :=
  { attributeName := e.mandatory "attribute"
    value := e.trimmedText
    inherit := e.flagD "inherit" true }

/-- The metadata of an element. -/
def metasOf (e : BoundElement) : List Meta :=
  (e.childrenNamed "meta").map Meta.ofElement

/-- An identifier generator that goes by a name. -/
structure IdentifierGenerator where
  name : String
  className : String
  deriving DecidableEq, Repr

/-- The generator that an element names. -/
def IdentifierGenerator.ofElement (e : BoundElement) : IdentifierGenerator :=
  { name := e.mandatory "name", className := e.mandatory "class" }

/-- A type that goes by a name. -/
structure TypeDef where
  name : String
  className : String
  params : List Param
  deriving DecidableEq, Repr

/-- The type that an element names. -/
def TypeDef.ofElement (e : BoundElement) : TypeDef :=
  { name := e.mandatory "name", className := e.mandatory "class", params := paramsOf e }

/-- A class that queries may refer to by a short name. -/
structure Import where
  className : String
  rename : Option String
  deriving DecidableEq, Repr

/-- The import that an element describes. -/
def Import.ofElement (e : BoundElement) : Import :=
  { className := e.mandatory "class", rename := e.attribute? "rename" }

/-- A parameter with its type. -/
structure TypedParam where
  name : String
  typeName : String
  deriving DecidableEq, Repr

/-- The parameter that an element describes. -/
def TypedParam.ofElement (e : BoundElement) : TypedParam :=
  { name := e.mandatory "name", typeName := e.mandatory "type" }

/-- The definition of a filter. -/
structure FilterDef where
  name : String
  condition : Option String
  params : List TypedParam
  deriving DecidableEq, Repr

/-- The filter that an element defines. -/
def FilterDef.ofElement (e : BoundElement) : FilterDef :=
  { name := e.mandatory "name"
    condition := e.attributeOrContent? "condition"
    params := (e.childrenNamed "filter-param").map TypedParam.ofElement }

/-- A filter that applies to a class or a collection. -/
structure Filter where
  name : String
  condition : Option String
  autoAliasInjection : Bool
  deriving DecidableEq, Repr

/-- The filters of an element. -/
def filtersOf (e : BoundElement) : List Filter :=
  (e.childrenNamed "filter").map fun f =>
    { name := f.mandatory "name"
      condition := f.attributeOrContent? "condition"
      autoAliasInjection := f.flagD "autoAliasInjection" true }

/-- A statement that replaces a generated one. -/
structure CustomSql where
  sql : String
  callable : Bool
  check : Option String
  deriving DecidableEq, Repr

/-- The statement in the first child of a name. -/
def customSqlOf? (e : BoundElement) (name : String) : Option CustomSql :=
  (e.child? name).map fun s =>
    { sql := s.trimmedText
      callable := s.flagD "callable" false
      check := s.attribute? "check" }

/-- The query that loads an element. -/
def loaderOf? (e : BoundElement) : Option String :=
  (e.child? "loader").bind (·.attribute? "query-ref")

/-- The tables whose contents an element depends on. -/
def synchronizedTablesOf (e : BoundElement) : List String :=
  e.childAttributes "synchronize" "table"

/-- How one association is fetched. -/
structure Fetch where
  /-- The owner of the association; a profile inside a class leaves it out. -/
  entity : Option String
  association : String
  style : String
  deriving DecidableEq, Repr

/-- A named set of ways to fetch associations. -/
structure FetchProfile where
  name : String
  fetches : List Fetch
  deriving DecidableEq, Repr

/-- The profile that an element describes. -/
def FetchProfile.ofElement (e : BoundElement) : FetchProfile :=
  { name := e.mandatory "name"
    fetches := (e.childrenNamed "fetch").map fun f =>
      { entity := f.attribute? "entity"
        association := f.mandatory "association"
        style := f.attributeD "style" "join" } }

/-- The profiles of an element. -/
def fetchProfilesOf (e : BoundElement) : List FetchProfile :=
  (e.childrenNamed "fetch-profile").map FetchProfile.ofElement

/-- A further object of the database: a class that defines it, or a pair of statements. -/
structure DatabaseObject where
  definition : Option String
  create : Option String
  drop : Option String
  dialectScopes : List String
  deriving DecidableEq, Repr

/-- The object that an element describes. -/
def DatabaseObject.ofElement (e : BoundElement) : DatabaseObject :=
  { definition := (e.child? "definition").bind (·.attribute? "class")
    create := e.childContent? "create"
    drop := e.childContent? "drop"
    dialectScopes := e.childAttributes "dialect-scope" "name" }

end Mapping

end PersistenceMapping

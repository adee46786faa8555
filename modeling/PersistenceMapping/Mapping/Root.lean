/-
A hierarchical document as a whole.

Names of classes may be given without the package of the document; `qualifyClass` puts it in
front where a name is not qualified already.
-/
import PersistenceMapping.ClassName
import PersistenceMapping.Mapping.Class

namespace PersistenceMapping

/-- What a hierarchical document maps. -/
structure Mapping where
  package : Option String
  schema : Option String
  catalog : Option String
  defaultAccess : String
  defaultCascade : String
  defaultLazy : Bool
  autoImport : Bool
  metas : List Mapping.Meta
  identifierGenerators : List Mapping.IdentifierGenerator
  typeDefs : List Mapping.TypeDef
  filterDefs : List Mapping.FilterDef
  imports : List Mapping.Import
  classes : List Mapping.ClassMapping
  /-- The subclasses that stand apart from their superclass. -/
  subclasses : List Mapping.Subclass
  resultSets : List Mapping.ResultSet
  queries : List Mapping.Query
  fetchProfiles : List Mapping.FetchProfile
  databaseObjects : List Mapping.DatabaseObject

namespace Mapping

/-- The mapping of a root element. -/
def ofElement (e : BoundElement) : Mapping :=
  { package := e.attribute? "package"
    schema := e.attribute? "schema"
    catalog := e.attribute? "catalog"
    defaultAccess := e.attributeD "default-access" "property"
    defaultCascade := e.attributeD "default-cascade" "none"
    defaultLazy := e.flagD "default-lazy" true
    autoImport := e.flagD "auto-import" true
    metas := metasOf e
    identifierGenerators :=
      (e.childrenNamed "identifier-generator").map IdentifierGenerator.ofElement
    typeDefs := (e.childrenNamed "typedef").map TypeDef.ofElement
    filterDefs := (e.childrenNamed "filter-def").map FilterDef.ofElement
    imports := (e.childrenNamed "import").map Import.ofElement
    classes := (e.childrenNamed "class").map ClassMapping.ofElement
    subclasses := subclassesOf e.children
    resultSets := (e.childrenNamed "resultset").map ResultSet.ofElement
    queries := queriesOf e
    fetchProfiles := fetchProfilesOf e
    databaseObjects := (e.childrenNamed "database-object").map DatabaseObject.ofElement }

/-- A class name in the package of the document. -/
def qualify (m : Mapping) (name : String) : String :=
  qualifyClass name m.package

/-- Whether a class goes by a name: its entity name, or its own with or without the package. -/
def answersTo (m : Mapping) (name : String) (c : ClassMapping) : Bool :=
  c.entityName == some name || c.name.any fun own => own == name || m.qualify own == name

/-- The number of the first class that goes by a name. -/
def findClass? (m : Mapping) (name : String) : Option Nat :=
  m.classes.findIdx? (m.answersTo name)

end Mapping

namespace Schema

/-- The mapping that a stream describes, under a schema. -/
def unmarshal (schema : Schema) (validate : Bool) (s : TokenStream) : Except BindFault Mapping :=
  (schema.bind validate s).map Mapping.ofElement

end Schema

end PersistenceMapping

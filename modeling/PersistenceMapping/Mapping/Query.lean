/-
Queries and the shapes of their results.
-/
import PersistenceMapping.Mapping.Metadata

namespace PersistenceMapping

namespace Mapping

/-- The columns of a result that make up a property. -/
structure ReturnProperty where
  name : String
  columns : List String
  deriving DecidableEq, Repr

/-- The property that an element describes.  A column in its attribute comes first. -/
def ReturnProperty.ofElement (e : BoundElement) : ReturnProperty :=
  { name := e.mandatory "name"
    columns := (e.attribute? "column").toList ++ e.childAttributes "return-column" "name" }

/-- The properties of a returned value. -/
def returnPropertiesOf (e : BoundElement) : List ReturnProperty :=
  (e.childrenNamed "return-property").map ReturnProperty.ofElement

/-- What a query returns. -/
inductive Return where
  | scalar (column : String) (typeName : Option String)
  | entity (aliasName entity : Option String) (lockMode : String) (properties : List ReturnProperty)
  | join (aliasName property lockMode : String) (properties : List ReturnProperty)
  | collection (aliasName role lockMode : String) (properties : List ReturnProperty)
  deriving DecidableEq, Repr

/-- The lock mode of a returned value. -/
def lockModeOf (e : BoundElement) : String :=
  e.attributeD "lock-mode" "read"

/-- The returned value that an element describes, if it describes one. -/
def Return.ofElement? (e : BoundElement) : Option Return :=
  if e.name = "return-scalar" then some (.scalar (e.mandatory "column") (e.attribute? "type"))
  else if e.name = "return" then
    some
      (.entity (e.attribute? "alias") ((e.attribute? "entity-name").or (e.attribute? "class"))
        (lockModeOf e) (returnPropertiesOf e))
  else if e.name = "return-join" then
    some
      (.join (e.mandatory "alias") (e.mandatory "property") (lockModeOf e) (returnPropertiesOf e))
  else if e.name = "load-collection" then
    some
      (.collection (e.mandatory "alias") (e.mandatory "role") (lockModeOf e)
        (returnPropertiesOf e))
  else none

/-- What the children of an element say that is returned. -/
def returnsOf (e : BoundElement) : List Return :=
  e.children.filterMap Return.ofElement?

/-- A named shape of results. -/
structure ResultSet where
  name : String
  returns : List Return
  deriving DecidableEq, Repr

/-- The shape that an element describes. -/
def ResultSet.ofElement (e : BoundElement) : ResultSet :=
  { name := e.mandatory "name", returns := returnsOf e }

/-- A named query. -/
structure Query where
  name : String
  /-- Whether the query is in the language of the database. -/
  native : Bool
  query : String
  cacheable : Bool
  callable : Bool
  resultSetRef : Option String
  params : List TypedParam
  returns : List Return
  synchronizedTables : List String
  deriving DecidableEq, Repr

/-- The query that an element describes. -/
def Query.ofElement (e : BoundElement) : Query :=
  { name := e.mandatory "name"
    native := e.name == "sql-query"
    query := e.trimmedText
    cacheable := e.flagD "cacheable" false
    callable := e.flagD "callable" false
    resultSetRef := e.attribute? "resultset-ref"
    params := (e.childrenNamed "query-param").map TypedParam.ofElement
    returns := returnsOf e
    synchronizedTables := synchronizedTablesOf e }

/-- Whether an element is a query. -/
def isQuery (e : BoundElement) : Bool :=
  e.name == "query" || e.name == "sql-query"

/-- The queries of an element. -/
def queriesOf (e : BoundElement) : List Query :=
  (e.children.filter isQuery).map Query.ofElement

end Mapping

end PersistenceMapping

/-
Collections.

A collection has an index, if its elements are found by position or by key, and elements of
one kind.  Where several children describe either, the last one counts.

Composite elements have members of their own and stand beside those; this module holds what
has none.
-/
import PersistenceMapping.Mapping.Identity

namespace PersistenceMapping

namespace Mapping

/-- The kinds of collections. -/
inductive CollectionKind where
  | set
  | bag
  | idbag
  | list
  | map
  | array
  | primitiveArray
  deriving DecidableEq, Repr

namespace CollectionKind

/-- The name of the element that maps a collection of this kind. -/
def elementName : CollectionKind → String
  | set => "set"
  | bag => "bag"
  | idbag => "idbag"
  | list => "list"
  | map => "map"
  | array => "array"
  | primitiveArray => "primitive-array"

/-- All kinds of collections. -/
def all : List CollectionKind :=
  [set, bag, idbag, list, map, array, primitiveArray]

/-- The kind of collection that an element of this name maps. -/
def ofName? (name : String) : Option CollectionKind :=
  all.find? (·.elementName == name)

/-- Whether elements are found by position. -/
def isPositional : CollectionKind → Bool
  | list => true
  | array => true
  | primitiveArray => true
  | _ => false

end CollectionKind

/-- The identifier that the rows of a collection have. -/
structure CollectionId where
  typeName : String
  columns : List Column
  generator : Option Generator
  deriving DecidableEq, Repr

/-- The identifier that an element describes. -/
def CollectionId.ofElement (e : BoundElement) : CollectionId :=
  { typeName := e.mandatory "type", columns := columnsOf e, generator := generatorOf? e }

/-- How elements are found in a collection. -/
inductive CollectionIndex where
  /-- By a position counted from `base`. -/
  | column (columns : List Column) (base : UInt32)
  | mapKey (typeName : Option String) (columns : List Column) (formula : Option String)
  | composite (className : String) (keys : List KeyPart)
  | manyToMany (className : Option String) (columns : List Column)
  | manyToAny (idType metaType : String) (columns : List Column)
  deriving DecidableEq, Repr

/-- The index that an element describes in a collection found by position or not. -/
def CollectionIndex.ofElement? (positional : Bool) (e : BoundElement) : Option CollectionIndex :=
  if positional && (e.name == "list-index" || e.name == "index") then
    some (.column (columnsOf e) ((e.number? "base").getD 0))
  else if e.name = "map-key" || e.name = "index" then
    some (.mapKey e.typeName? (columnsOf e) (e.attributeOrChild? "formula"))
  else if e.name = "composite-map-key" then
    some (.composite (e.mandatory "class") (keyPartsOf e))
  else if e.name = "map-key-many-to-many" then
    some (.manyToMany (e.attribute? "class") (columnsOf e))
  else if e.name = "index-many-to-any" then
    some (.manyToAny (e.mandatory "id-type") (e.attributeD "meta-type" "string") (columnsOf e))
  else none

/-- The index of a collection: the last that its children describe. -/
def indexOf? (kind : CollectionKind) (e : BoundElement) : Option CollectionIndex :=
  (e.children.filterMap (CollectionIndex.ofElement? kind.isPositional)).getLast?

/-- A discriminating value and the class that it stands for. -/
structure MetaValue where
  value : String
  className : String
  deriving DecidableEq, Repr

/-- The discriminating values of an element. -/
def metaValuesOf (e : BoundElement) : List MetaValue :=
  (e.childrenNamed "meta-value").map fun m =>
    { value := m.mandatory "value", className := m.mandatory "class" }

/-- What the elements of a collection are, where they have no members. -/
inductive SimpleElement where
  | basic (typeName : Option String) (columns : List Column) (formula : Option String)
  | oneToMany (className : Option String)
  | manyToMany (className : Option String) (columns : List Column)
  | manyToAny (idType metaType : String) (metaValues : List MetaValue) (columns : List Column)
  deriving DecidableEq, Repr

/-- What an element says that the elements of a collection are, if it says so. -/
def SimpleElement.ofElement? (e : BoundElement) : Option SimpleElement :=
  if e.name = "element" then
    some (.basic e.typeName? (columnsOf e) (e.attributeOrChild? "formula"))
  else if e.name = "one-to-many" then some (.oneToMany (e.attribute? "class"))
  else if e.name = "many-to-many" then some (.manyToMany (e.attribute? "class") (columnsOf e))
  else if e.name = "many-to-any" then
    some
      (.manyToAny (e.mandatory "id-type") (e.attributeD "meta-type" "string") (metaValuesOf e)
        (columnsOf e))
  else none

/-- A collection, apart from what its elements are. -/
structure Collection where
  kind : CollectionKind
  name : String
  access : Option String
  table : Option String
  schema : Option String
  catalog : Option String
  subselect : Option String
  inverse : Bool
  isMutable : Bool
  lazy : Option String
  cascade : Option String
  orderBy : Option String
  whereClause : Option String
  fetch : Option String
  batchSize : Option UInt32
  sort : Option String
  /-- The class of the elements of an array. -/
  elementClass : Option String
  metas : List Meta
  cache : Option Cache
  collectionId : Option CollectionId
  key : Option Key
  index : Option CollectionIndex
  filters : List Filter
  loader : Option String
  sqlInsert : Option CustomSql
  sqlUpdate : Option CustomSql
  sqlDelete : Option CustomSql
  sqlDeleteAll : Option CustomSql
  deriving DecidableEq, Repr

/-- The collection that an element maps. -/
def Collection.ofElement (kind : CollectionKind) (e : BoundElement) : Collection :=
  { kind
    name := e.mandatory "name"
    access := e.attribute? "access"
    table := e.attribute? "table"
    schema := e.attribute? "schema"
    catalog := e.attribute? "catalog"
    subselect := e.attributeOrChild? "subselect"
    inverse := e.flagD "inverse" false
    isMutable := e.flagD "mutable" true
    lazy := e.attribute? "lazy"
    cascade := e.attribute? "cascade"
    orderBy := e.attribute? "order-by"
    whereClause := e.attribute? "where"
    fetch := e.attribute? "fetch"
    batchSize := e.number? "batch-size"
    sort := e.attribute? "sort"
    elementClass := e.attribute? "element-class"
    metas := metasOf e
    cache := (e.child? "cache").map Cache.ofElement
    collectionId := (e.child? "collection-id").map CollectionId.ofElement
    key := keyOf? e
    index := indexOf? kind e
    filters := filtersOf e
    loader := loaderOf? e
    sqlInsert := customSqlOf? e "sql-insert"
    sqlUpdate := customSqlOf? e "sql-update"
    sqlDelete := customSqlOf? e "sql-delete"
    sqlDeleteAll := customSqlOf? e "sql-delete-all" }

end Mapping

end PersistenceMapping

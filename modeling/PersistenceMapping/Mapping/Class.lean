/-
Classes, their subclasses, and the tables that they share.
-/
import PersistenceMapping.Mapping.Member
import PersistenceMapping.Mapping.Query

namespace PersistenceMapping

namespace Mapping

/-- The members that identify an instance to its users. -/
structure NaturalId where
  isMutable : Bool
  members : List Member

/-- The natural identifier that an element describes. -/
def NaturalId.ofElement (e : BoundElement) : NaturalId :=
  { isMutable := e.flagD "mutable" false, members := membersOf e.children }

/-- Members kept in a table of their own. -/
structure Join where
  table : String
  schema : Option String
  catalog : Option String
  fetch : String
  inverse : Bool
  optional : Bool
  key : Option Key
  members : List Member
  sqlInsert : Option CustomSql
  sqlUpdate : Option CustomSql
  sqlDelete : Option CustomSql

/-- The join that an element describes. -/
def Join.ofElement (e : BoundElement) : Join :=
  { table := e.mandatory "table"
    schema := e.attribute? "schema"
    catalog := e.attribute? "catalog"
    fetch := e.attributeD "fetch" "join"
    inverse := e.flagD "inverse" false
    optional := e.flagD "optional" false
    key := keyOf? e
    members := membersOf e.children
    sqlInsert := customSqlOf? e "sql-insert"
    sqlUpdate := customSqlOf? e "sql-update"
    sqlDelete := customSqlOf? e "sql-delete" }

/-- The joins of an element. -/
def joinsOf (e : BoundElement) : List Join :=
  (e.childrenNamed "join").map Join.ofElement

/-! ### Subclasses -/

/-- How the instances of a subclass are stored. -/
inductive SubclassKind where
  /-- In the table of the class, told apart by a discriminator. -/
  | discriminated
  | joined
  | union
  deriving DecidableEq, Repr

/-- The name of the element that maps a subclass of this kind. -/
def SubclassKind.elementName : SubclassKind → String
  | discriminated => "subclass"
  | joined => "joined-subclass"
  | union => "union-subclass"

/-- The kind of subclass that an element of this name maps. -/
def SubclassKind.ofName? (name : String) : Option SubclassKind :=
  [discriminated, joined, union].find? (·.elementName == name)

/-- What a subclass is, apart from its own subclasses. -/
structure SubclassBody where
  kind : SubclassKind
  name : Option String
  entityName : Option String
  proxy : Option String
  superclass : Option String
  table : Option String
  schema : Option String
  catalog : Option String
  discriminatorValue : Option String
  lazy : Option Bool
  isAbstract : Option Bool
  metas : List Meta
  key : Option Key
  members : List Member
  joins : List Join
  sqlInsert : Option CustomSql
  sqlUpdate : Option CustomSql
  sqlDelete : Option CustomSql
  queries : List Query

/-- What an element says of a subclass. -/
def SubclassBody.ofElement (kind : SubclassKind) (e : BoundElement) : SubclassBody :=
  { kind
    name := e.attribute? "name"
    entityName := e.attribute? "entity-name"
    proxy := e.attribute? "proxy"
    superclass := e.attribute? "extends"
    table := e.attribute? "table"
    schema := e.attribute? "schema"
    catalog := e.attribute? "catalog"
    discriminatorValue := e.attribute? "discriminator-value"
    lazy := e.flag? "lazy"
    isAbstract := e.flag? "abstract"
    metas := metasOf e
    key := keyOf? e
    members := membersOf e.children
    joins := joinsOf e
    sqlInsert := customSqlOf? e "sql-insert"
    sqlUpdate := customSqlOf? e "sql-update"
    sqlDelete := customSqlOf? e "sql-delete"
    queries := queriesOf e }

/-- A subclass and its own subclasses. -/
inductive Subclass where
  | mk (body : SubclassBody) (subclasses : List Subclass)

/-- What a subclass is, apart from its own subclasses. -/
def Subclass.body : Subclass → SubclassBody
  | mk body _ => body

/-- The subclasses of a subclass. -/
def Subclass.subclasses : Subclass → List Subclass
  | mk _ subclasses => subclasses

mutual

/-- The subclass that an element maps, if it maps one. -/
def Subclass.ofElement? : BoundElement → Option Subclass
  | .mk name attributes children text =>
    match SubclassKind.ofName? name with
    | none => none
    | some kind =>
      some (.mk (.ofElement kind (.mk name attributes children text)) (subclassesOf children))

/-- The subclasses that elements map, in order. -/
def subclassesOf : List BoundElement → List Subclass
  | [] => []
  | e :: rest =>
    match Subclass.ofElement? e with
    | some s => s :: subclassesOf rest
    | none => subclassesOf rest

end

/-! ### Classes -/

/-- A class at the top of its hierarchy. -/
structure ClassMapping where
  name : Option String
  entityName : Option String
  proxy : Option String
  table : Option String
  schema : Option String
  catalog : Option String
  subselect : Option String
  discriminatorValue : Option String
  isMutable : Bool
  isAbstract : Option Bool
  polymorphism : String
  persister : Option String
  lazy : Option Bool
  dynamicUpdate : Bool
  dynamicInsert : Bool
  selectBeforeUpdate : Bool
  optimisticLock : String
  batchSize : Option UInt32
  whereClause : Option String
  check : Option String
  rowid : Option String
  metas : List Meta
  synchronizedTables : List String
  cache : Option Cache
  id : Option Id
  compositeId : Option CompositeId
  discriminator : Option Discriminator
  naturalId : Option NaturalId
  version : Option Version
  timestamp : Option Timestamp
  members : List Member
  joins : List Join
  subclasses : List Subclass
  loader : Option String
  sqlInsert : Option CustomSql
  sqlUpdate : Option CustomSql
  sqlDelete : Option CustomSql
  filters : List Filter
  fetchProfiles : List FetchProfile
  resultSets : List ResultSet
  queries : List Query

/-- The class that an element maps. -/
def ClassMapping.ofElement (e : BoundElement) : ClassMapping :=
  { name := e.attribute? "name"
    entityName := e.attribute? "entity-name"
    proxy := e.attribute? "proxy"
    table := e.attribute? "table"
    schema := e.attribute? "schema"
    catalog := e.attribute? "catalog"
    subselect := e.attributeOrChild? "subselect"
    discriminatorValue := e.attribute? "discriminator-value"
    isMutable := e.flagD "mutable" true
    isAbstract := e.flag? "abstract"
    polymorphism := e.attributeD "polymorphism" "implicit"
    persister := e.attribute? "persister"
    lazy := e.flag? "lazy"
    dynamicUpdate := e.flagD "dynamic-update" false
    dynamicInsert := e.flagD "dynamic-insert" false
    selectBeforeUpdate := e.flagD "select-before-update" false
    optimisticLock := e.attributeD "optimistic-lock" "version"
    batchSize := e.number? "batch-size"
    whereClause := e.attribute? "where"
    check := e.attribute? "check"
    rowid := e.attribute? "rowid"
    metas := metasOf e
    synchronizedTables := synchronizedTablesOf e
    cache := (e.child? "cache").map Cache.ofElement
    id := (e.child? "id").map Id.ofElement
    compositeId := (e.child? "composite-id").map CompositeId.ofElement
    discriminator := (e.child? "discriminator").map Discriminator.ofElement
    naturalId := (e.child? "natural-id").map NaturalId.ofElement
    version := (e.child? "version").map Version.ofElement
    timestamp := (e.child? "timestamp").map Timestamp.ofElement
    members := membersOf e.children
    joins := joinsOf e
    subclasses := subclassesOf e.children
    loader := loaderOf? e
    sqlInsert := customSqlOf? e "sql-insert"
    sqlUpdate := customSqlOf? e "sql-update"
    sqlDelete := customSqlOf? e "sql-delete"
    filters := filtersOf e
    fetchProfiles := fetchProfilesOf e
    resultSets := (e.childrenNamed "resultset").map ResultSet.ofElement
    queries := queriesOf e }

end Mapping

end PersistenceMapping

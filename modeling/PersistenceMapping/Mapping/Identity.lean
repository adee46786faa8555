/-
How instances are told apart: identifiers, keys, discriminators, versions, and the cache in
which they are kept.
-/
import PersistenceMapping.Mapping.Column
import PersistenceMapping.Mapping.Metadata

namespace PersistenceMapping

namespace Mapping

/-- What makes new identifiers. -/
structure Generator where
  className : String
  params : List Param
  deriving DecidableEq, Repr

/-- The generator of an element. -/
def generatorOf? (e : BoundElement) : Option Generator :=
  (e.child? "generator").map fun g => { className := g.mandatory "class", params := paramsOf g }

/-- A cache. -/
structure Cache where
  usage : String
  region : Option String
  included : String
  deriving DecidableEq, Repr

/-- The cache that an element describes. -/
def Cache.ofElement (e : BoundElement) : Cache :=
  { usage := e.mandatory "usage"
    region := e.attribute? "region"
    included := e.attributeD "include" "all" }

/-- A simple identifier. -/
structure Id where
  name : Option String
  typeName : Option String
  access : Option String
  unsavedValue : Option String
  metas : List Meta
  columns : List Column
  generator : Option Generator
  deriving DecidableEq, Repr

/-- The identifier that an element describes. -/
def Id.ofElement (e : BoundElement) : Id :=
  { name := e.attribute? "name"
    typeName := e.typeName?
    access := e.attribute? "access"
    unsavedValue := e.attribute? "unsaved-value"
    metas := metasOf e
    columns := columnsOf e
    generator := generatorOf? e }

/-- A part of a composite key. -/
inductive KeyPart where
  | property (name : String) (typeName access : Option String) (columns : List Column)
  | manyToOne (name : String) (className entityName lazy : Option String) (columns : List Column)
  deriving DecidableEq, Repr

/-- The part of a key that an element describes, if it describes one. -/
def KeyPart.ofElement? (e : BoundElement) : Option KeyPart :=
  if e.name = "key-property" then
    some (.property (e.mandatory "name") e.typeName? (e.attribute? "access") (columnsOf e))
  else if e.name = "key-many-to-one" then
    some
      (.manyToOne (e.mandatory "name") (e.attribute? "class") (e.attribute? "entity-name")
        (e.attribute? "lazy") (columnsOf e))
  else none

/-- The parts of the key of an element, in order. -/
def keyPartsOf (e : BoundElement) : List KeyPart :=
  e.children.filterMap KeyPart.ofElement?

/-- An identifier of several parts. -/
structure CompositeId where
  name : Option String
  className : Option String
  mapped : Bool
  access : Option String
  unsavedValue : String
  metas : List Meta
  keys : List KeyPart
  generator : Option Generator
  deriving DecidableEq, Repr

/-- The identifier that an element describes. -/
def CompositeId.ofElement (e : BoundElement) : CompositeId :=
  { name := e.attribute? "name"
    className := e.attribute? "class"
    mapped := e.flagD "mapped" false
    access := e.attribute? "access"
    unsavedValue := e.attributeD "unsaved-value" "undefined"
    metas := metasOf e
    keys := keyPartsOf e
    generator := generatorOf? e }

/-- What tells the classes of a hierarchy apart in one table. -/
structure Discriminator where
  typeName : String
  formula : Option String
  notNull : Bool
  force : Bool
  insert : Bool
  columns : List Column
  deriving DecidableEq, Repr

/-- The discriminator that an element describes. -/
def Discriminator.ofElement (e : BoundElement) : Discriminator :=
  { typeName := e.attributeD "type" "string"
    formula := e.attributeOrChild? "formula"
    notNull := e.flagD "not-null" true
    force := e.flagD "force" false
    insert := e.flagD "insert" true
    columns := columnsOf e }

/-- A version that is a number. -/
structure Version where
  name : String
  typeName : String
  access : Option String
  unsavedValue : Option String
  generated : String
  insert : Option Bool
  metas : List Meta
  columns : List Column
  deriving DecidableEq, Repr

/-- The version that an element describes. -/
def Version.ofElement (e : BoundElement) : Version :=
  { name := e.mandatory "name"
    typeName := e.attributeD "type" "integer"
    access := e.attribute? "access"
    unsavedValue := e.attribute? "unsaved-value"
    generated := e.attributeD "generated" "never"
    insert := e.flag? "insert"
    metas := metasOf e
    columns := columnsOf e }

/-- A version that is a point in time. -/
structure Timestamp where
  name : String
  access : Option String
  unsavedValue : Option String
  source : String
  generated : String
  metas : List Meta
  columns : List Column
  deriving DecidableEq, Repr

/-- The version that an element describes. -/
def Timestamp.ofElement (e : BoundElement) : Timestamp :=
  { name := e.mandatory "name"
    access := e.attribute? "access"
    unsavedValue := e.attribute? "unsaved-value"
    source := e.attributeD "source" "vm"
    generated := e.attributeD "generated" "never"
    metas := metasOf e
    columns := columnsOf e }

/-- The foreign key of a collection, a join or a subclass. -/
structure Key where
  columns : List Column
  propertyRef : Option String
  foreignKey : Option String
  onDelete : String
  deriving DecidableEq, Repr

/-- The key that an element describes. -/
def Key.ofElement (e : BoundElement) : Key :=
  { columns := columnsOf e
    propertyRef := e.attribute? "property-ref"
    foreignKey := e.attribute? "foreign-key"
    onDelete := e.attributeD "on-delete" "noaction" }

/-- The key of an element. -/
def keyOf? (e : BoundElement) : Option Key :=
  (e.child? "key").map Key.ofElement

end Mapping

end PersistenceMapping

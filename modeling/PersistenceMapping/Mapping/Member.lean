/-
The members of a class that are mapped.

A member is of the kind that its element's name says (`MemberKind.ofName?`).  Components,
groups of properties and composite elements have members of their own, so reading them
follows the tree of bound elements; a collection has at most the members of its last
element.
-/
import PersistenceMapping.Mapping.Collection

namespace PersistenceMapping

namespace Mapping

/-- A value in columns of its own. -/
structure Property where
  name : String
  typeName : Option String
  typeParams : List Param
  columns : List Column
  notNull : Option Bool
  unique : Option Bool
  insert : Option Bool
  update : Option Bool
  lazy : Bool
  optimisticLock : Bool
  generated : String
  formula : Option String
  access : Option String
  metas : List Meta
  deriving DecidableEq, Repr

/-- The property that an element maps. -/
def Property.ofElement (e : BoundElement) : Property :=
  { name := e.mandatory "name"
    typeName := e.typeName?
    typeParams := ((e.child? "type").map paramsOf).getD []
    columns := columnsOf e
    notNull := e.flag? "not-null"
    unique := e.flag? "unique"
    insert := e.flag? "insert"
    update := e.flag? "update"
    lazy := e.flagD "lazy" false
    optimisticLock := e.flagD "optimistic-lock" true
    generated := e.attributeD "generated" "never"
    formula := e.attributeOrChild? "formula"
    access := e.attribute? "access"
    metas := metasOf e }

/-- A reference to an entity that others may refer to as well. -/
structure ManyToOne where
  name : String
  className : Option String
  entityName : Option String
  columns : List Column
  formula : Option String
  cascade : Option String
  fetch : Option String
  lazy : Option String
  notNull : Option Bool
  unique : Bool
  insert : Bool
  update : Bool
  propertyRef : Option String
  notFound : String
  foreignKey : Option String
  access : Option String
  metas : List Meta
  deriving DecidableEq, Repr

/-- The reference that an element maps. -/
def ManyToOne.ofElement (e : BoundElement) : ManyToOne :=
  { name := e.mandatory "name"
    className := e.attribute? "class"
    entityName := e.attribute? "entity-name"
    columns := columnsOf e
    formula := e.attributeOrChild? "formula"
    cascade := e.attribute? "cascade"
    fetch := e.attribute? "fetch"
    lazy := e.attribute? "lazy"
    notNull := e.flag? "not-null"
    unique := e.flagD "unique" false
    insert := e.flagD "insert" true
    update := e.flagD "update" true
    propertyRef := e.attribute? "property-ref"
    notFound := e.attributeD "not-found" "exception"
    foreignKey := e.attribute? "foreign-key"
    access := e.attribute? "access"
    metas := metasOf e }

/-- A reference to an entity that no other refers to. -/
structure OneToOne where
  name : String
  className : Option String
  entityName : Option String
  cascade : Option String
  constrained : Bool
  propertyRef : Option String
  formula : Option String
  foreignKey : Option String
  deriving DecidableEq, Repr

/-- The reference that an element maps. -/
def OneToOne.ofElement (e : BoundElement) : OneToOne :=
  { name := e.mandatory "name"
    className := e.attribute? "class"
    entityName := e.attribute? "entity-name"
    cascade := e.attribute? "cascade"
    constrained := e.flagD "constrained" false
    propertyRef := e.attribute? "property-ref"
    formula := e.attributeOrChild? "formula"
    foreignKey := e.attribute? "foreign-key" }

/-- A value made of members, apart from these. -/
structure Component where
  name : String
  className : Option String
  access : Option String
  unique : Bool
  insert : Bool
  update : Bool
  /-- The member through which the value refers back to its owner. -/
  parent : Option String
  metas : List Meta
  deriving DecidableEq, Repr

/-- The name of the member that refers back to the owner of an element. -/
def parentOf? (e : BoundElement) : Option String :=
  (e.child? "parent").bind (·.attribute? "name")

/-- The component that an element maps. -/
def Component.ofElement (e : BoundElement) : Component :=
  { name := e.mandatory "name"
    className := e.attribute? "class"
    access := e.attribute? "access"
    unique := e.flagD "unique" false
    insert := e.flagD "insert" true
    update := e.flagD "update" true
    parent := parentOf? e
    metas := metasOf e }

/-- A named group of members, apart from these. -/
structure Group where
  name : String
  unique : Bool
  insert : Bool
  update : Bool
  deriving DecidableEq, Repr

/-- The group that an element maps. -/
def Group.ofElement (e : BoundElement) : Group :=
  { name := e.mandatory "name"
    unique := e.flagD "unique" false
    insert := e.flagD "insert" true
    update := e.flagD "update" true }

/-- A reference to an entity of any of several classes. -/
structure AnyReference where
  name : String
  idType : String
  metaType : String
  metaValues : List MetaValue
  columns : List Column
  cascade : Option String
  lazy : Bool
  access : Option String
  deriving DecidableEq, Repr

/-- The reference that an element maps. -/
def AnyReference.ofElement (e : BoundElement) : AnyReference :=
  { name := e.mandatory "name"
    idType := e.mandatory "id-type"
    metaType := e.attributeD "meta-type" "string"
    metaValues := metaValuesOf e
    columns := columnsOf e
    cascade := e.attribute? "cascade"
    lazy := e.flagD "lazy" false
    access := e.attribute? "access" }

/-! ### Members -/

/-- The kinds of members. -/
inductive MemberKind where
  | property
  | manyToOne
  | oneToOne
  | component
  | dynamicComponent
  | properties
  | any
  | collection (kind : CollectionKind)
  deriving DecidableEq, Repr

/-- The kind of member that an element of this name maps. -/
def MemberKind.ofName? (name : String) : Option MemberKind :=
  if name = "property" then some .property
  else if name = "many-to-one" then some .manyToOne
  else if name = "one-to-one" then some .oneToOne
  else if name = "component" then some .component
  else if name = "dynamic-component" then some .dynamicComponent
  else if name = "properties" then some .properties
  else if name = "any" then some .any
  else (CollectionKind.ofName? name).map .collection

mutual

/-- A member of a class, a component or whatever else has members. -/
inductive Member where
  | property (property : Property)
  | manyToOne (reference : ManyToOne)
  | oneToOne (reference : OneToOne)
  | component (component : Component) (members : List Member)
  | dynamicComponent (component : Component) (members : List Member)
  | properties (group : Group) (members : List Member)
  | any (reference : AnyReference)
  | collection (collection : Collection) (element : Option CollectionElement)

/-- What the elements of a collection are. -/
inductive CollectionElement where
  | simple (element : SimpleElement)
  | composite (element : CompositeElement)

/-- An element of a collection that is made of members, and of further such elements. -/
inductive CompositeElement where
  | mk (name : Option String) (className : String) (parent : Option String)
      (members : List Member) (nested : List CompositeElement)

end

/-- The name of a member. -/
def Member.name : Member → String
  | property p => p.name
  | manyToOne r => r.name
  | oneToOne r => r.name
  | component c _ => c.name
  | dynamicComponent c _ => c.name
  | properties g _ => g.name
  | any r => r.name
  | collection c _ => c.name

/-- The kind of a member. -/
def Member.kind : Member → MemberKind
  | property _ => .property
  | manyToOne _ => .manyToOne
  | oneToOne _ => .oneToOne
  | component .. => .component
  | dynamicComponent .. => .dynamicComponent
  | properties .. => .properties
  | any _ => .any
  | collection c _ => .collection c.kind

mutual

/-- The member that an element maps, if it maps one. -/
def Member.ofElement? : BoundElement → Option Member
  | .mk name attributes children text =>
    let e := BoundElement.mk name attributes children text
    match MemberKind.ofName? name with
    | none => none
    | some .property => some (.property (.ofElement e))
    | some .manyToOne => some (.manyToOne (.ofElement e))
    | some .oneToOne => some (.oneToOne (.ofElement e))
    | some .component => some (.component (.ofElement e) (membersOf children))
    | some .dynamicComponent => some (.dynamicComponent (.ofElement e) (membersOf children))
    | some .properties => some (.properties (.ofElement e) (membersOf children))
    | some .any => some (.any (.ofElement e))
    | some (.collection kind) => some (.collection (.ofElement kind e) (elementOf? children))

/-- The members that elements map, in order. -/
def membersOf : List BoundElement → List Member
  | [] => []
  | e :: rest =>
    match Member.ofElement? e with
    | some m => m :: membersOf rest
    | none => membersOf rest

/-- The composite element that an element describes. -/
def compositeOf : BoundElement → CompositeElement
  | .mk name attributes children text =>
    let e := BoundElement.mk name attributes children text
    .mk (e.attribute? "name") (e.mandatory "class") (parentOf? e) (membersOf children)
      (nestedOf children)

/-- The composite elements nested among elements. -/
def nestedOf : List BoundElement → List CompositeElement
  | [] => []
  | e :: rest =>
    if e.name = "nested-composite-element" then compositeOf e :: nestedOf rest else nestedOf rest

/-- What the elements of a collection are: the last that its children describe. -/
def elementOf? : List BoundElement → Option CollectionElement
  | [] => none
  | e :: rest =>
    match elementOf? rest with
    | some element => some element
    | none =>
      if e.name = "composite-element" then some (.composite (compositeOf e))
      else (SimpleElement.ofElement? e).map .simple

end

end Mapping

end PersistenceMapping

/-
What an entity document declares.

A document is read as the list of its declarations, in the order in which they take effect:
what it says of all documents, its own access value, its classes kind by kind, each followed
by its listeners, and its converters.  Reading never fails; whether a declaration can stand is
for the registry to say (`Override/Registry`).

Class names are qualified with the package of the document, except those of the listeners
for all documents.
-/
import PersistenceMapping.ClassName
import PersistenceMapping.Override.Defaults
import PersistenceMapping.Tree.Element

namespace PersistenceMapping

/-- The kinds of mapped classes. -/
inductive ClassKind where
  | entity
  | mappedSuperclass
  | embeddable
  deriving DecidableEq, Repr

namespace ClassKind

/-- The tag that declares a class of a kind. -/
def tag : ClassKind → String
  | entity => "entity"
  | mappedSuperclass => "mapped-superclass"
  | embeddable => "embeddable"

/-- All kinds, in the order in which their classes take effect. -/
def all : List ClassKind :=
  [entity, mappedSuperclass, embeddable]

end ClassKind

/-- One thing that a document declares.  Names are qualified, and nodes are nodes of the
document. -/
inductive Declaration where
  /-- An access value for many classes. -/
  | access (written : WrittenAccess)
  | listener (name : String) (node : NodeId)
  /-- Defaults for the classes of all documents; the listeners declared before are for all
  documents as well. -/
  | globals (defaults : MappingDefault)
  /-- A mapped class, with its own access value and the defaults that it gets from this
  document if that value is legal. -/
  | mappedClass (name : String) (node : NodeId) (kind : ClassKind) (written : WrittenAccess)
      (defaults : MappingDefault)
  | converter (className : String) (autoApply : Bool)
  deriving DecidableEq, Repr

namespace Document

/-! ### Parts of declarations -/

/-- The value of an attribute, empty where there is none. -/
def attributeText (d : Document) (id : NodeId) (name : String) : String :=
  (d.attribute? id name).getD ""

/-- The trimmed text of the first child with a tag, unless it is empty. -/
def setting? (d : Document) (id : NodeId) (tag : String) : Option String :=
  (d.optionalChildText id tag).filter (!·.isEmpty)

/-- `true` where there is a child with a tag. -/
def marker? (d : Document) (id : NodeId) (tag : String) : Option Bool :=
  (d.optionalChild id tag).map fun _ => true

/-- The access value in the first `access` child. -/
def childAccess? (d : Document) (id : NodeId) : Option WrittenAccess :=
  (d.optionalChild id "access").map fun child =>
    { value := d.trimmedText child, place := d.path child }

/-- The access value in the attribute of a class. -/
def attributeAccess (d : Document) (id : NodeId) : WrittenAccess :=
  { value := d.attributeText id "access", place := d.path id ++ "/@access" }

/-- The access type of a value that may be missing, if it is legal. -/
def accessType? (written : Option WrittenAccess) : Option AccessType :=
  written.bind fun w => AccessType.ofText? w.value

/-- The listeners in the first list of listeners below a node. -/
def listeners (d : Document) (package : Option String) (id : NodeId) : List Declaration :=
  ((d.optionalChild id "entity-listeners").map fun below =>
    (d.childrenTagged below "entity-listener").map fun node =>
      .listener (qualifyClass (d.attributeText node "class") package) node).getD []

/-! ### Declarations for all documents -/

/-- What is declared in the metadata of the persistence unit. -/
def metadataDeclarations (d : Document) (metadata : NodeId) : List Declaration :=
  let complete := d.marker? metadata "xml-mapping-metadata-complete"
  match d.optionalChild metadata "persistence-unit-defaults" with
  | none => [.globals { metadataComplete := complete }]
  | some unit =>
    let access := d.childAccess? unit
    (access.map .access).toList ++ d.listeners none unit
      ++ [.globals
        { access := accessType? access
          schema := d.setting? unit "schema"
          catalog := d.setting? unit "catalog"
          metadataComplete := complete
          cascadePersist := d.marker? unit "cascade-persist"
          delimitedIdentifiers := d.marker? unit "delimited-identifiers" }]

/-- What is declared for all documents in the first metadata below the root. -/
def globalDeclarations (d : Document) (root : NodeId) : List Declaration :=
  ((d.optionalChild root "persistence-unit-metadata").map d.metadataDeclarations).getD []

/-! ### Declarations for one document -/

/-- The defaults of the document itself. -/
def unitDefaults (d : Document) (root : NodeId) : MappingDefault :=
  { access := accessType? (d.childAccess? root)
    package := d.setting? root "package"
    schema := d.setting? root "schema"
    catalog := d.setting? root "catalog" }

/-- What the element of a class sets of its own. -/
def classDefaults (d : Document) (node : NodeId) : MappingDefault :=
  { access := AccessType.ofText? (d.attributeText node "access")
    metadataComplete :=
      ((d.attribute? node "metadata-complete").filter (!·.isEmpty)).map
        (equalsIgnoringCase · "true") }

/-- A mapped class and its listeners. -/
def classDeclarations (d : Document) (unit : MappingDefault) (kind : ClassKind) (node : NodeId) :
    List Declaration :=
  .mappedClass (qualifyClass (d.attributeText node "class") unit.package) node kind
      (d.attributeAccess node) (unit.overriddenBy (d.classDefaults node))
    :: d.listeners unit.package node

/-- The converters below the root. -/
def converterDeclarations (d : Document) (root : NodeId) : List Declaration :=
  (d.childrenTagged root "converter").map fun node =>
    .converter (d.attributeText node "class")
      (equalsIgnoringCase (d.attributeText node "auto-apply") "true")

/-- What is declared below the root for this document. -/
def unitDeclarations (d : Document) (root : NodeId) : List Declaration :=
  let unit := d.unitDefaults root
  ((d.childAccess? root).map .access).toList
    ++ ClassKind.all.flatMap (fun kind =>
      (d.childrenTagged root kind.tag).flatMap (d.classDeclarations unit kind))
    ++ d.converterDeclarations root

end Document

end PersistenceMapping

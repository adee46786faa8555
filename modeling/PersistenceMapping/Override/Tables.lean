/-
The registry in tables.

What a name is registered as, and for which element, stands in one table, and the defaults of the
mapped classes stand in another.  A document is gone through in the order in which its declarations
take effect; the names that it registers are collected on the way and are handed over if the end is
reached.  What has been entered up to a failure stays.

A key is entered only where there is none, so a table is a list of entries, of which the one that was
entered last is found.
-/
import PersistenceMapping.Override.Registry

namespace PersistenceMapping

/-- What a name is registered as. -/
inductive OverrideKind where
  | mappedClass (kind : ClassKind)
  | listener
  deriving DecidableEq, Repr

/-- The element that a name is registered for. -/
structure OverrideEntry where
  /-- The number of the document, in the order of adding. -/
  document : Nat
  node : NodeId
  kind : OverrideKind
  deriving DecidableEq, Repr

/-- The documents that have been added, and what they declare in tables by name. -/
structure OverrideTables (α : Type) where
  loader : ClassLoader α
  documents : Array Document := #[]
  overrides : List (String × OverrideEntry) := []
  /-- The defaults of the mapped classes; listeners have none. -/
  defaults : List (String × MappingDefault) := []
  globals : Option MappingDefault := none
  /-- The listeners of all classes. -/
  defaultListeners : List String := []
  pending : List (Converter α) := []

/-- The tables while a document is added. -/
structure Addition (α : Type) where
  tables : OverrideTables α
  /-- The names that the document has registered. -/
  added : List String := []

/-- A part of adding a document, which may fail and leaves what it has entered. -/
abbrev Adding (α : Type) := ExceptT MappingError (StateM (Addition α))

/-- What a part of adding a document comes to. -/
def Adding.apply {α β : Type} (m : Adding α β) (s : Addition α) :
    Except MappingError β × Addition α :=
  m.run.run s

namespace OverrideTables

variable {α : Type}

/-! ### Looking up -/

/-- What a name is registered as. -/
def kind? (t : OverrideTables α) (name : String) : Option OverrideKind :=
  (t.overrides.lookup name).map (·.kind)

/-- The element that a name was registered for, and its document. -/
def element? (t : OverrideTables α) (name : String) : Option (Document × NodeId) := do
  let entry ← t.overrides.lookup name
  let document ← t.documents[entry.document]?
  if document.isElement entry.node then some (document, entry.node) else none

/-- The defaults of a class; without a class, or for what is no class, those of all classes. -/
def defaultsOf (t : OverrideTables α) (name : Option String) : MappingDefault :=
  (MappingDefault.overrideWith {} t.globals).overrideWith (name.bind (List.lookup · t.defaults))

/-! ### Entering -/

/-- Enters a listener. -/
def enterListener (t : OverrideTables α) (name : String) (document : Nat) (node : NodeId) :
    OverrideTables α :=
  { t with overrides := (name, ⟨document, node, .listener⟩) :: t.overrides }

/-- Enters a mapped class with its defaults. -/
def enterClass (t : OverrideTables α) (name : String) (document : Nat) (node : NodeId)
    (kind : ClassKind) (defaults : MappingDefault) : OverrideTables α :=
  { t with
    overrides := (name, ⟨document, node, .mappedClass kind⟩) :: t.overrides
    defaults := (name, defaults) :: t.defaults }

/-! ### Going through a document -/

/-- Reads an access value, if there is one. -/
def readAccess : Option WrittenAccess → Adding α (Option AccessType)
  | none => pure none
  | some written => liftExcept written.read

/-- Registers a listener, behind those that are registered with it, unless it is one already. -/
def registerListener (d : Document) (document : Nat) (package : Option String)
    (registered : List String) (node : NodeId) : Adding α (List String) := do
  let name := qualifyClass (d.attributeText node "class") package
  match (← get).tables.overrides.lookup name with
  | some entry => if entry.kind = .listener then pure registered else throw (.duplicateClass name)
  | none =>
    modify fun s => { s with tables := s.tables.enterListener name document node }
    pure (registered ++ [name])

/-- Registers the listeners in the first list of listeners below a node. -/
def registerListeners (d : Document) (document : Nat) (package : Option String) (id : NodeId) :
    Adding α (List String) :=
  match d.optionalChild id "entity-listeners" with
  | none => pure []
  | some below => do
    let registered ← (d.childrenTagged below "entity-listener").foldlM
      (registerListener d document package) []
    modify fun s => { s with added := s.added ++ registered }
    pure registered

/-- Registers a mapped class over the defaults of its document, and then its listeners. -/
def registerClass (d : Document) (document : Nat) (unit : MappingDefault) (kind : ClassKind)
    (node : NodeId) : Adding α Unit := do
  let name := qualifyClass (d.attributeText node "class") unit.package
  if ((← get).tables.overrides.lookup name).isSome then throw (.duplicateClass name)
  let complete := ((d.attribute? node "metadata-complete").filter (!·.isEmpty)).map
    (equalsIgnoringCase · "true")
  let access ← readAccess (some (d.attributeAccess node))
  let defaults :=
    { unit with
      metadataComplete := complete <|> unit.metadataComplete
      access := access <|> unit.access }
  modify fun s =>
    { tables := s.tables.enterClass name document node kind defaults, added := s.added ++ [name] }
  let _ ← registerListeners d document unit.package node

/-- Lets metadata set the defaults of all classes, once its listeners are registered. -/
def registerMetadata (d : Document) (document : Nat) (metadata : NodeId) : Adding α Unit := do
  let complete := d.marker? metadata "xml-mapping-metadata-complete"
  match d.optionalChild metadata "persistence-unit-defaults" with
  | none =>
    modify fun s => { s with tables.globals := some { metadataComplete := complete } }
  | some unit =>
    let access ← readAccess (d.childAccess? unit)
    let listeners ← registerListeners d document none unit
    modify fun s =>
      { s with
        tables.defaultListeners := s.tables.defaultListeners ++ listeners
        tables.globals := some
          { access
            schema := d.setting? unit "schema"
            catalog := d.setting? unit "catalog"
            metadataComplete := complete
            cascadePersist := d.marker? unit "cascade-persist"
            delimitedIdentifiers := d.marker? unit "delimited-identifiers" } }

/-- Makes a converter, which is pending then. -/
def registerConverter (d : Document) (node : NodeId) : Adding α Unit := do
  let converter ← liftExcept ((← get).tables.loader.resolve (d.attributeText node "class")
    (equalsIgnoringCase (d.attributeText node "auto-apply") "true"))
  modify fun s => { s with tables.pending := s.tables.pending ++ [converter] }

/-- Registers what is declared for the classes of all documents, if none has yet. -/
def registerGlobal (d : Document) (document : Nat) (root : NodeId) : Adding α Unit := do
  match d.optionalChild root "persistence-unit-metadata" with
  | some metadata =>
    if (← get).tables.globals.isNone then registerMetadata d document metadata
  | none => pure ()

/-- Registers what is declared for the document. -/
def registerUnit (d : Document) (document : Nat) (root : NodeId) : Adding α Unit := do
  let access ← readAccess (d.childAccess? root)
  let unit : MappingDefault :=
    { access
      package := d.setting? root "package"
      schema := d.setting? root "schema"
      catalog := d.setting? root "catalog" }
  ClassKind.all.forM fun kind =>
    (d.childrenTagged root kind.tag).forM (registerClass d document unit kind)
  (d.childrenTagged root "converter").forM (registerConverter d)

/-- Registers what a document declares. -/
def register (d : Document) (document : Nat) : Adding α Unit := do
  match d.rootElement? with
  | none => throw (.tree (.invalidOperation .noRoot))
  | some root =>
    registerGlobal d document root
    registerUnit d document root

/-- Adds a document: the names that it registers, in order, or why a declaration cannot stand. -/
def add (t : OverrideTables α) (d : Document) :
    Except MappingError (List String) × OverrideTables α :=
  let (result, s) := (register d t.documents.size).apply { tables := t }
  (result.map fun _ => s.added, { s.tables with documents := s.tables.documents.push d })

end OverrideTables

end PersistenceMapping

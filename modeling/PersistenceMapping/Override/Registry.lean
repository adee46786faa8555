/-
The registry of what entity documents override.

Documents are added one after the other, and the declarations of each take effect in order
until one cannot stand.  A declaration that cannot stand changes nothing, and those before it
stay in effect.  A document is kept whether or not all of its declarations stand.

Classes and listeners share their names.  A class needs a name of its own; a listener may be
declared again, and the first declaration counts.

The defaults for all documents are those of the first metadata that stands.
-/
import PersistenceMapping.Override.Converter
import PersistenceMapping.Override.Declaration

namespace PersistenceMapping

/-- What a name is registered as. -/
inductive Role where
  /-- A mapped class and the defaults that its document gives it. -/
  | mappedClass (kind : ClassKind) (defaults : MappingDefault)
  | listener
  deriving DecidableEq, Repr

/-- A registered name and the element that declares it. -/
structure Registration where
  name : String
  /-- The number of the document, in the order of adding. -/
  document : Nat
  node : NodeId
  role : Role
  deriving DecidableEq, Repr

/-- The defaults of a mapped class. -/
def Registration.defaults? (r : Registration) : Option MappingDefault :=
  match r.role with
  | .mappedClass _ defaults => some defaults
  | .listener => none

/-- What is declared for the classes of all documents. -/
structure GlobalDefaults where
  defaults : MappingDefault
  /-- The listeners of all classes. -/
  listeners : List String
  deriving DecidableEq, Repr

/-- The documents that have been added and what they declare, with converters of type `α`. -/
structure OverrideRegistry (α : Type) where
  loader : ClassLoader α
  documents : Array Document := #[]
  /-- The registered names in the order of their registration. -/
  registrations : List Registration := []
  globals : Option GlobalDefaults := none
  /-- The converters that nobody has taken yet. -/
  pending : List (Converter α) := []

namespace OverrideRegistry

variable {α : Type}

/-! ### Looking up -/

/-- The registration of a name. -/
def find? (r : OverrideRegistry α) (name : String) : Option Registration :=
  r.registrations.find? (·.name == name)

/-- The names that a document has registered so far. -/
def namesOf (r : OverrideRegistry α) (document : Nat) : List String :=
  (r.registrations.filter (·.document == document)).map (·.name)

/-- The defaults of a class; without a class, or for what is no class, those of all classes. -/
def defaultsOf (r : OverrideRegistry α) (name : Option String) : MappingDefault :=
  let own := (name.bind r.find?).bind (·.defaults?)
  (MappingDefault.overrideWith {} (r.globals.map (·.defaults))).overrideWith own

/-- The listeners of all classes. -/
def defaultListeners (r : OverrideRegistry α) : List String :=
  (r.globals.map (·.listeners)).getD []

/-- The element that a name was registered for, and its document. -/
def element? (r : OverrideRegistry α) (name : String) : Option (Document × NodeId) := do
  let registration ← r.find? name
  let document ← r.documents[registration.document]?
  if document.isElement registration.node then some (document, registration.node) else none

/-- Whether a document has been added. -/
def hasAnyDocument (r : OverrideRegistry α) : Bool :=
  !r.documents.isEmpty

/-- The root elements of the documents that have one, with the numbers of the documents. -/
def roots (r : OverrideRegistry α) : List (Nat × NodeId) :=
  r.documents.toList.zipIdx.filterMap fun (d, i) => d.rootElement?.map (i, ·)

/-! ### Registering -/

/-- Lets one declaration of a document take effect, unless it cannot stand. -/
def declare (r : OverrideRegistry α) (document : Nat) :
    Declaration → Except MappingError (OverrideRegistry α)
  | .access written => written.read.map fun _ => r
  | .listener name node =>
    match r.find? name with
    | none =>
      .ok { r with registrations := r.registrations ++ [⟨name, document, node, .listener⟩] }
    | some first => if first.role = .listener then .ok r else .error (.duplicateClass name)
  | .globals defaults =>
    .ok { r with globals := some { defaults, listeners := r.namesOf document } }
  | .mappedClass name node kind written defaults =>
    if (r.find? name).isSome then .error (.duplicateClass name)
    else
      written.read.map fun _ =>
        { r with
          registrations :=
            r.registrations ++ [⟨name, document, node, .mappedClass kind defaults⟩] }
  | .converter className autoApply =>
    (r.loader.resolve className autoApply).map fun converter =>
      { r with pending := r.pending ++ [converter] }

/-- Lets declarations take effect up to the first that cannot stand: why it cannot, if there is
one, and the registry after those before it. -/
def declareAll (r : OverrideRegistry α) (document : Nat) :
    List Declaration → Option MappingError × OverrideRegistry α
  | [] => (none, r)
  | declaration :: rest =>
    match r.declare document declaration with
    | .ok r => r.declareAll document rest
    | .error e => (some e, r)

/-- Declarations take effect one part after the other, the second if the first stands. -/
theorem declareAll_append (r : OverrideRegistry α) (document : Nat)
    (first second : List Declaration) :
    r.declareAll document (first ++ second) =
      match r.declareAll document first with
      | (none, r) => r.declareAll document second
      | (some e, r) => (some e, r) := by
  induction first generalizing r with
  | nil => rfl
  | cons declaration first ih =>
    simp only [List.cons_append, declareAll]
    split
    · exact ih _
    · rfl

/-- What a document with a root element declares to this registry: for all documents only if no
other document has. -/
def declarationsOf (r : OverrideRegistry α) (d : Document) (root : NodeId) : List Declaration :=
  (if r.globals.isSome then [] else d.globalDeclarations root) ++ d.unitDeclarations root

/-- Adds a document: the names that it registers, in order, or why a declaration cannot stand. -/
def add (r : OverrideRegistry α) (d : Document) :
    Except MappingError (List String) × OverrideRegistry α :=
  let document := r.documents.size
  let kept (r : OverrideRegistry α) := { r with documents := r.documents.push d }
  match d.rootElement? with
  | none => (.error (.tree (.invalidOperation .noRoot)), kept r)
  | some root =>
    match r.declareAll document (r.declarationsOf d root) with
    | (none, r) => (.ok (r.namesOf document), kept r)
    | (some e, r) => (.error e, kept r)

/-- Takes the converters that nobody has taken yet. -/
def drain (r : OverrideRegistry α) : List (Converter α) × OverrideRegistry α :=
  (r.pending, { r with pending := [] })

end OverrideRegistry

end PersistenceMapping

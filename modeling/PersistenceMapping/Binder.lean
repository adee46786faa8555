/-
Binding documents of either dialect.

The local name of the first element decides: a hierarchical document is bound to the schema
and read as a mapping, any other is an entity document and becomes a tree.  What comes before
the first element is passed over.

A binder compiles the schema when it first needs it and keeps it from then on.
-/
import PersistenceMapping.Dialect.Entity
import PersistenceMapping.Error
import PersistenceMapping.Mapping.Root
import PersistenceMapping.Schema.Hierarchical

namespace PersistenceMapping

/-- What a binder is to do. -/
structure BinderOptions where
  /-- Whether what the schema does not declare is refused. -/
  validate : Bool := true
  /-- Whether repeated attributes and character data at document level are refused. -/
  strict : Bool := false
  /-- The versions of entity documents that are supported. -/
  versions : List String := Dialect.Entity.defaultVersions
  deriving DecidableEq, Repr

/-- What a document is bound to. -/
inductive BoundRoot where
  | hierarchical (mapping : Mapping)
  | entity (document : Document)

/-- A bound document and where it comes from. -/
structure Binding where
  root : BoundRoot
  origin : Origin

namespace TokenStream

/-- The first start tag among outcomes, and the outcomes from there on. -/
def seekStart (failure : Option TokenError) :
    List Outcome → Except TransformFault (StartTag × List Outcome)
  | [] =>
    match failure with
    | some e => .error (.source e)
    | none => .error .noRoot
  | .error e :: _ => .error (.source e)
  | .ok (.startTag tag) :: rest => .ok (tag, .ok (.startTag tag) :: rest)
  | .ok _ :: rest => seekStart failure rest

/-- The first start tag of a stream, and the stream from there on. -/
def seekRoot (s : TokenStream) : Except TransformFault (StartTag × TokenStream) :=
  (seekStart s.failure s.items).map fun (tag, items) => (tag, { s with items })

end TokenStream

namespace BinderOptions

/-- The tree of a stream that starts with the root of an entity document. -/
def bindEntity (options : BinderOptions) (origin : Origin) (s : TokenStream) :
    Except MappingError Document :=
  match Document.ofOpenedStream options.strict (Dialect.Entity.normalize options.versions s) with
  | .ok d => .ok d
  | .error (.source (.unsupportedVersion version)) => .error (.unsupportedVersion version origin)
  | .error e => .error (.transform origin (.build e))

/-- The mapping of a stream that starts with the root of a hierarchical document. -/
def bindHierarchical (options : BinderOptions) (schema : Schema) (origin : Origin)
    (s : TokenStream) : Except MappingError Mapping :=
  (schema.unmarshal options.validate (Dialect.Hierarchical.normalize s)).mapError
    (.unmarshal origin)

end BinderOptions

/-- A binder and, once it has been needed, the schema. -/
structure Binder where
  options : BinderOptions
  schema : Option Schema := none

namespace Binder

/-- Whether the schema has been needed yet. -/
def isInitialized (b : Binder) : Bool :=
  b.schema.isSome

/-- The schema of hierarchical documents, compiled unless it has been before. -/
def compileSchema (b : Binder) : Except MappingError Schema × Binder :=
  match b.schema with
  | some schema => (.ok schema, b)
  | none =>
    match Schema.Hierarchical.compiled with
    | .ok schema => (.ok schema, { b with schema := some schema })
    | .error fault => (.error (.configuration fault), b)

/-- Binds a stream. -/
def bind (b : Binder) (origin : Origin) (s : TokenStream) :
    Except MappingError Binding × Binder :=
  match s.seekRoot with
  | .error fault => (.error (.transform origin fault), b)
  | .ok (tag, s) =>
    if tag.localName = Dialect.Hierarchical.rootName then
      match b.compileSchema with
      | (.error e, b) => (.error e, b)
      | (.ok schema, b) =>
        ((b.options.bindHierarchical schema origin s).map fun m => ⟨.hierarchical m, origin⟩, b)
    else ((b.options.bindEntity origin s).map fun d => ⟨.entity d, origin⟩, b)

/-- Binds documents one after the other; the failure of one does not affect the others. -/
def bindAll (b : Binder) : List (Origin × TokenStream) → List (Except MappingError Binding) × Binder
  | [] => ([], b)
  | (origin, s) :: rest =>
    let (result, b) := b.bind origin s
    let (results, b) := b.bindAll rest
    (result :: results, b)

end Binder

end PersistenceMapping

/-
The entity dialect.

The root of an entity document says which version it is of.  A version that is not
supported is a failure; a supported one is dropped, so that documents of all versions look
alike behind this point.  Schema locations go from the root as well, elements without a
namespace or in a standard one are put into the canonical one, and declarations follow suit.
-/
import PersistenceMapping.Token.Stream

namespace PersistenceMapping

universe u

namespace Dialect.Entity

/-- The namespace of every element of a document in current shape. -/
def canonicalNamespace : String := "http://www.hibernate.org/xsd/orm/mapping"

/-- The namespaces of the standard generations. -/
def standardNamespaces : List String :=
  ["http://java.sun.com/xml/ns/persistence/orm", "http://xmlns.jcp.org/xml/ns/persistence/orm"]

/-- The versions that are supported where nothing else is said. -/
def defaultVersions : List String :=
  ["1.0", "2.0", "2.1", "2.2"]

/-- The namespace that replaces a standard one. -/
def currentNamespace? (ns : String) : Option String :=
  if standardNamespaces.contains ns then some canonicalNamespace else none

/-- The namespace of an element in a document in current shape. -/
def namespaceOf : Option String → String
  | none => canonicalNamespace
  | some ns => (currentNamespace? ns).getD ns

/-- Whether an attribute says where a schema is found. -/
def isSchemaLocation (a : Attribute) : Bool :=
  a.localName == "schemaLocation" && a.qualifier?.isSome

/-- A root tag without its version and schema locations; the version where it is not
supported. -/
def normalizeRoot (versions : List String) (tag : StartTag) : Except String StartTag :=
  match (tag.get? "version").filter fun v => !versions.contains v with
  | some version => .error version
  | none =>
    let tag := tag.remove "version"
    let tag := { tag with attributes := tag.attributes.filter fun a => !isSchemaLocation a }
    .ok (tag.declareDefault canonicalNamespace)

/-- A start tag in the canonical namespace. -/
def normalizeTag (tag : StartTag) : StartTag :=
  { tag with
    ns := some (namespaceOf tag.ns)
    attributes := Attributes.redeclare currentNamespace? tag.attributes }

/-- Outcomes of a document whose root has been seen. -/
def normalizeItems : List Outcome → List Outcome :=
  List.map fun item =>
    match item with
    | .ok (.startTag tag) => .ok (.startTag (normalizeTag tag))
    | item => item

/-- Outcomes of a document whose root is still to come. -/
def normalizeDocument (versions : List String) : List Outcome → List Outcome
  | [] => []
  | .ok (.startTag tag) :: rest =>
    let item : Outcome :=
      match normalizeRoot versions tag with
      | .ok tag => .ok (.startTag (normalizeTag tag))
      | .error version => .error (.unsupportedVersion version)
    item :: normalizeItems rest
  | item :: rest => item :: normalizeDocument versions rest

/-- A stream in current shape. -/
def normalize (versions : List String) (s : TokenStream) : TokenStream :=
  { s with items := normalizeDocument versions s.items }

/-! ### Reading token by token -/

/-- A reader of a document, whose tokens it brings to current shape. -/
structure Source (σ : Type u) where
  inner : σ
  versions : List String
  /-- Whether a start tag has been seen. -/
  seenRoot : Bool := false

namespace Source

variable {σ : Type u} [TokenSource σ]

/-- Takes the next token. -/
def next (s : Source σ) : Pull × Source σ :=
  match TokenSource.next s.inner with
  | (.ok (some (.startTag tag)), inner) =>
    let s' := { s with inner, seenRoot := true }
    if s.seenRoot then (.ok (some (.startTag (normalizeTag tag))), s')
    else
      match normalizeRoot s.versions tag with
      | .ok tag => (.ok (some (.startTag (normalizeTag tag))), s')
      | .error version => (.error (.unsupportedVersion version), s')
  | (pull, inner) => (pull, { s with inner })

theorem size_next_lt (s : Source σ) {token : Token} (h : s.next.1 = .ok (some token)) :
    TokenSource.size s.next.2.inner < TokenSource.size s.inner := by
  have hinner : s.next.2.inner = (TokenSource.next s.inner).2 := by
    unfold next
    split
    · rename_i heq
      rw [heq]
      split
      · rfl
      · split <;> rfl
    · rename_i heq
      rw [heq]
  obtain ⟨token', htoken⟩ : ∃ token', (TokenSource.next s.inner).1 = .ok (some token') := by
    unfold next at h
    split at h
    · rename_i tag inner heq
      exact ⟨.startTag tag, by rw [heq]⟩
    · rename_i heq
      exact ⟨token, by rw [heq]; exact h⟩
  rw [hinner]
  exact TokenSource.size_next_lt s.inner htoken

instance : TokenSource (Source σ) where
  next := next
  size s := TokenSource.size s.inner
  size_next_lt := size_next_lt

end Source

end Dialect.Entity

end PersistenceMapping

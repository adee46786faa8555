/-
The hierarchical dialect.

Documents of several generations are brought to one shape: document type declarations
go, elements without a namespace or in the legacy one are put into the canonical one,
declarations follow suit, and elements with a legacy name get the current one, at their
start as at their end.  A root without a qualifier declares the canonical namespace as the
default one, unless it declares another.
-/
import PersistenceMapping.Token.Stream

namespace PersistenceMapping

universe u

namespace Dialect.Hierarchical

/-- The local name of the root element. -/
def rootName : String := "hibernate-mapping"

/-- The namespace of every element of a document in current shape. -/
def canonicalNamespace : String := "http://www.hibernate.org/xsd/orm/hbm"

/-- The namespace of older documents. -/
def legacyNamespace : String := "http://www.hibernate.org/xsd/hibernate-mapping"

/-- The current local name of an element that has a legacy one. -/
def currentName? (localName : String) : Option String :=
  if localName = "composite-index" then some "composite-map-key"
  else if localName = "index-many-to-many" then some "map-key-many-to-many"
  else none

/-- A name with a current local name. -/
def renamed (name : String) : String :=
  match currentName? (QName.localName name) with
  | some current => QName.withLocalName name current
  | none => name

/-- The namespace that replaces a legacy one. -/
def currentNamespace? (ns : String) : Option String :=
  if ns = legacyNamespace then some canonicalNamespace else none

/-- The namespace of an element in a document in current shape. -/
def namespaceOf : Option String → String
  | none => canonicalNamespace
  | some ns => (currentNamespace? ns).getD ns

/-- A start tag in current shape. -/
def normalizeTag (isRoot : Bool) (tag : StartTag) : StartTag :=
  let tag :=
    { tag with
      ns := some (namespaceOf tag.ns)
      attributes := Attributes.redeclare currentNamespace? tag.attributes }
  let tag := if isRoot then tag.declareDefault canonicalNamespace else tag
  { tag with name := renamed tag.name }

/-- Outcomes in current shape.  `isRoot` holds until a start tag has been seen. -/
def normalizeItems (isRoot : Bool) : List Outcome → List Outcome
  | [] => []
  | .ok (.doctype _) :: rest => normalizeItems isRoot rest
  | .ok (.startTag tag) :: rest =>
    .ok (.startTag (normalizeTag isRoot tag)) :: normalizeItems false rest
  | .ok (.endTag name) :: rest => .ok (.endTag (renamed name)) :: normalizeItems isRoot rest
  | item :: rest => item :: normalizeItems isRoot rest

/-- A stream in current shape. -/
def normalize (s : TokenStream) : TokenStream :=
  { s with items := normalizeItems true s.items }

/-! ### Reading token by token -/

/-- A reader of a document, whose tokens it brings to current shape. -/
structure Source (σ : Type u) where
  inner : σ
  /-- Whether a start tag has been seen. -/
  seenRoot : Bool := false

namespace Source

variable {σ : Type u} [TokenSource σ]

/-- Takes the next token that is not a document type declaration. -/
def next (s : Source σ) : Pull × Source σ :=
  match h : TokenSource.next s.inner with
  | (.ok (some (.doctype _)), inner) =>
    have : TokenSource.size inner < TokenSource.size s.inner := by
      have hlt := TokenSource.size_next_lt s.inner (congrArg Prod.fst h)
      rwa [h] at hlt
    next { s with inner }
  | (.ok (some (.startTag tag)), inner) =>
    (.ok (some (.startTag (normalizeTag (!s.seenRoot) tag))), { inner, seenRoot := true })
  | (.ok (some (.endTag name)), inner) => (.ok (some (.endTag (renamed name))), { s with inner })
  | (pull, inner) => (pull, { s with inner })
termination_by TokenSource.size s.inner

theorem size_next_lt (s : Source σ) {token : Token} (h : s.next.1 = .ok (some token)) :
    TokenSource.size s.next.2.inner < TokenSource.size s.inner := by
  fun_induction next s with
  | case1 s content inner heq hlt ih => exact Nat.lt_trans (ih h) hlt
  | case2 s tag inner heq =>
    have hlt := TokenSource.size_next_lt s.inner (congrArg Prod.fst heq)
    rwa [heq] at hlt
  | case3 s name inner heq =>
    have hlt := TokenSource.size_next_lt s.inner (congrArg Prod.fst heq)
    rwa [heq] at hlt
  | case4 s pull inner _ _ _ heq =>
    have hlt := TokenSource.size_next_lt s.inner ((congrArg Prod.fst heq).trans h)
    rwa [heq] at hlt

instance : TokenSource (Source σ) where
  next := next
  size s := TokenSource.size s.inner
  size_next_lt := size_next_lt

end Source

end Dialect.Hierarchical

end PersistenceMapping

/-
Namespaces in scope.

A start tag opens a level and binds prefixes there; a binding holds as long as its level
is open.  Looking a prefix up finds its latest binding, and a binding to the empty
namespace says that there is none.

Two prefixes are bound from the start and cannot be given away: `xml` and `xmlns`.  Nor
can another prefix take one of their namespaces.
-/
import PersistenceMapping.Markup.Attributes

namespace PersistenceMapping

namespace Markup

/-- The namespace of the prefix `xml`. -/
def xmlNamespace : String := "http://www.w3.org/XML/1998/namespace"

/-- The namespace of the prefix `xmlns`. -/
def xmlnsNamespace : String := "http://www.w3.org/2000/xmlns/"

/-- A prefix bound to a namespace; no prefix for the default namespace. -/
structure Binding where
  level : Nat
  qualifier : Option RawText
  uri : RawText
  deriving DecidableEq, Repr

/-- The bindings in scope, latest first, and the number of open levels. -/
structure Scope where
  level : Nat
  bindings : List Binding
  deriving DecidableEq, Repr

/-- What an attribute binds. -/
inductive Declared where
  | default
  | qualifier (name : RawText)
  deriving DecidableEq, Repr

/-- What the attribute of this name binds, if it is a namespace declaration. -/
def declared? (name : RawText) : Option Declared :=
  match RawText.after? "xmlns".toList name with
  | some [] => some .default
  | some (.char ':' :: qualifier) => some (.qualifier qualifier)
  | _ => none

namespace Scope

/-- The scope of a document before its first tag. -/
def initial : Scope :=
  { level := 0
    bindings :=
      [⟨0, some (.ofString "xmlns"), .ofString xmlnsNamespace⟩,
       ⟨0, some (.ofString "xml"), .ofString xmlNamespace⟩] }

/-- Binds a prefix on the current level.  The empty prefix counts as none. -/
def bind (scope : Scope) (qualifier uri : RawText) : Scope :=
  let qualifier := if qualifier.isEmpty then none else some qualifier
  { scope with bindings := ⟨scope.level, qualifier, uri⟩ :: scope.bindings }

/-- Takes the declarations among the attributes of a tag into scope, up to the first that
is not permitted. -/
def declare (scope : Scope) : List RawAttribute → Scope × Option Fault
  | [] => (scope, none)
  | a :: rest =>
    match declared? a.name with
    | none => declare scope rest
    | some .default => declare (scope.bind [] a.value) rest
    | some (.qualifier qualifier) =>
      if qualifier = .ofString "xml" then
        if a.value = .ofString xmlNamespace then declare scope rest
        else (scope, some (.reservedBinding qualifier a.value))
      else if qualifier = .ofString "xmlns" || a.value = .ofString xmlNamespace
          || a.value = .ofString xmlnsNamespace then
        (scope, some (.reservedBinding qualifier a.value))
      else declare (scope.bind qualifier a.value) rest

/-- Opens a level with the declarations of a tag. -/
def enter (scope : Scope) (attributes : List RawAttribute) : Scope × Option Fault :=
  declare { scope with level := scope.level + 1 } attributes

/-- Closes a level, and with it the bindings made above the one that is current then. -/
def leave (scope : Scope) : Scope :=
  let level := scope.level - 1
  { level, bindings := scope.bindings.dropWhile fun b => level < b.level }

/-- The namespace of a name, by its prefix. -/
def resolve (scope : Scope) (name : RawText) : Option RawText :=
  let qualifier :=
    match name.dropWhile (· ≠ .char ':') with
    | [] => none
    | _ => some (name.takeWhile (· ≠ .char ':'))
  match scope.bindings.find? (·.qualifier == qualifier) with
  | some b => if b.uri.isEmpty then none else some b.uri
  | none => none

end Scope

end Markup

end PersistenceMapping

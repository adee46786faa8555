/-
Declarations of elements.

A table of declarations says what a document of a dialect may look like: which attributes
an element has and what their values are, which elements may stand in it, and whether
character data in it is content.
-/
import PersistenceMapping.Text.Number

namespace PersistenceMapping

/-- What kind of value an attribute has. -/
inductive ValueKind where
  | text
  /-- One of `true`, `false`, `1` and `0`. -/
  | boolean
  /-- An unsigned number of 32 bits. -/
  | integer
  deriving DecidableEq, Repr

namespace ValueKind

/-- The name of a kind in messages. -/
def label : ValueKind → String
  | text => "Text"
  | boolean => "Boolean"
  | integer => "Integer"

/-- The truth value that a trimmed text stands for. -/
def boolean? (value : String) : Option Bool :=
  let value := trim value
  if value = "true" || value = "1" then some true
  else if value = "false" || value = "0" then some false
  else none

/-- Whether a value is of a kind. -/
def accepts : ValueKind → String → Bool
  | text, _ => true
  | boolean, value => (boolean? value).isSome
  | integer, value => (Number.parse? value).isSome

end ValueKind

/-- The declaration of an attribute. -/
structure AttributeDecl where
  name : String
  kind : ValueKind
  /-- The value of the attribute where it is missing. -/
  default : Option String
  required : Bool
  deriving DecidableEq, Repr

namespace AttributeDecl

/-- A text that may be missing. -/
def optional (name : String) : AttributeDecl :=
  { name, kind := .text, default := none, required := false }

/-- A text that may not be missing. -/
def mandatory (name : String) : AttributeDecl :=
  { name, kind := .text, default := none, required := true }

/-- A text with a default. -/
def defaulted (name value : String) : AttributeDecl :=
  { name, kind := .text, default := some value, required := false }

/-- A truth value that may be missing. -/
def flag (name : String) : AttributeDecl :=
  { name, kind := .boolean, default := none, required := false }

/-- A truth value with a default. -/
def flagged (name value : String) : AttributeDecl :=
  { name, kind := .boolean, default := some value, required := false }

/-- A number that may be missing. -/
def number (name : String) : AttributeDecl :=
  { name, kind := .integer, default := none, required := false }

/-- A number with a default. -/
def counted (name value : String) : AttributeDecl :=
  { name, kind := .integer, default := some value, required := false }

end AttributeDecl

/-- The declaration of an element. -/
structure ElementDecl where
  name : String
  attributes : List AttributeDecl
  /-- The local names of the elements that may stand in it. -/
  children : List String
  /-- Whether its character data is content. -/
  hasText : Bool
  deriving DecidableEq, Repr

namespace ElementDecl

/-- An element whose character data is formatting. -/
def plain (name : String) (attributes : List AttributeDecl) (children : List String) :
    ElementDecl :=
  { name, attributes, children, hasText := false }

/-- An element whose character data is content. -/
def mixed (name : String) (attributes : List AttributeDecl) (children : List String) :
    ElementDecl :=
  { name, attributes, children, hasText := true }

/-- Whether an element of a local name may stand in the declared one. -/
def permits (decl : ElementDecl) (localName : String) : Bool :=
  decl.children.contains localName

/-- The declaration of an attribute. -/
def attribute? (decl : ElementDecl) (name : String) : Option AttributeDecl :=
  decl.attributes.find? (·.name == name)

end ElementDecl

end PersistenceMapping

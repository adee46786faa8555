/-
Compiling a table of declarations.

A table makes a schema if no name is declared twice, every default is a value of its own
kind, and every element that is referred to is declared.  Declarations are checked in
order, the attributes of each before its name; references are checked last.
-/
import PersistenceMapping.Schema.Declaration

namespace PersistenceMapping

/-- Why a table makes no schema. -/
inductive SchemaFault where
  | repeatedAttribute (name element : String)
  | badDefault (value name element : String) (kind : ValueKind)
  | repeatedElement (name : String)
  | undeclaredChild (element child : String)
  | undeclaredRoot (name : String)
  deriving DecidableEq, Repr

/-- The text of a fault. -/
def SchemaFault.message : SchemaFault → String
  | repeatedAttribute name element => s!"attribute '{name}' declared twice in <{element}>"
  | badDefault value name element kind =>
    s!"default '{value}' of attribute '{name}' in <{element}> is not a valid " ++ kind.label
  | repeatedElement name => s!"element <{name}> declared twice"
  | undeclaredChild element child =>
    s!"element <{element}> references undeclared child <{child}>"
  | undeclaredRoot name => s!"root element <{name}> is not declared"

/-- A table of declarations that has been checked, and its root element. -/
structure Schema where
  root : String
  elements : List ElementDecl
  deriving DecidableEq, Repr

namespace Schema

/-- Checks the attributes of an element; `seen` holds the names of those before. -/
def checkAttributes (element : String) (seen : List String) :
    List AttributeDecl → Except SchemaFault Unit
  | [] => .ok ()
  | a :: rest =>
    if seen.contains a.name then .error (.repeatedAttribute a.name element)
    else
      match a.default.filter fun value => !a.kind.accepts value with
      | some value => .error (.badDefault value a.name element a.kind)
      | none => checkAttributes element (a.name :: seen) rest

/-- Checks declarations one by one; `seen` holds the names of those before. -/
def checkElements (seen : List String) : List ElementDecl → Except SchemaFault Unit
  | [] => .ok ()
  | decl :: rest => do
    checkAttributes decl.name [] decl.attributes
    if seen.contains decl.name then .error (.repeatedElement decl.name)
    else checkElements (decl.name :: seen) rest

/-- Checks that the children of declarations are among the declared names. -/
def checkChildren (declared : List String) : List ElementDecl → Except SchemaFault Unit
  | [] => .ok ()
  | decl :: rest =>
    match decl.children.find? fun child => !declared.contains child with
    | some child => .error (.undeclaredChild decl.name child)
    | none => checkChildren declared rest

/-- The schema of a table and a root element. -/
def compile (elements : List ElementDecl) (root : String) : Except SchemaFault Schema := do
  let names := elements.map (·.name)
  checkElements [] elements
  checkChildren names elements
  if names.contains root then .ok { root, elements } else .error (.undeclaredRoot root)

/-- The declaration of an element. -/
def element? (schema : Schema) (name : String) : Option ElementDecl :=
  schema.elements.find? (·.name == name)

/-- Whether an element is declared. -/
def declares (schema : Schema) (name : String) : Bool :=
  (schema.element? name).isSome

/-- The number of declared elements. -/
def size (schema : Schema) : Nat :=
  schema.elements.length

end Schema

end PersistenceMapping

/-
Reading values off bound elements.

A value that is missing and a value that does not read as its kind are the same: both give
nothing, and the reader supplies what holds then.  Where a name may stand in an attribute
or in a child, the attribute wins.
-/
import PersistenceMapping.Schema.Bind

namespace PersistenceMapping

namespace BoundElement

/-- The value of an attribute. -/
def attribute? (e : BoundElement) (name : String) : Option String :=
  Attributes.get? e.attributes name

/-- The value of an attribute, with what it is where it is missing. -/
def attributeD (e : BoundElement) (name otherwise : String) : String :=
  (e.attribute? name).getD otherwise

/-- The value of an attribute that is not missing from a valid element. -/
def mandatory (e : BoundElement) (name : String) : String :=
  e.attributeD name ""

/-- The truth value of an attribute. -/
def flag? (e : BoundElement) (name : String) : Option Bool :=
  (e.attribute? name).bind ValueKind.boolean?

/-- The truth value of an attribute, with what it is where it does not say. -/
def flagD (e : BoundElement) (name : String) (otherwise : Bool) : Bool :=
  (e.flag? name).getD otherwise

/-- The number of an attribute. -/
def number? (e : BoundElement) (name : String) : Option UInt32 :=
  (e.attribute? name).bind Number.parse?

/-- The first child of a name. -/
def child? (e : BoundElement) (name : String) : Option BoundElement :=
  e.children.find? (·.name == name)

/-- The children of a name, in order. -/
def childrenNamed (e : BoundElement) (name : String) : List BoundElement :=
  e.children.filter (·.name == name)

/-- The text of an element without blanks around it. -/
def trimmedText (e : BoundElement) : String :=
  trim e.text

/-- The trimmed text of an element, unless that is empty. -/
def content? (e : BoundElement) : Option String :=
  if e.trimmedText.isEmpty then none else some e.trimmedText

/-- The content of the first child of a name. -/
def childContent? (e : BoundElement) (name : String) : Option String :=
  (e.child? name).bind content?

/-- A text that is either an attribute or a child's content. -/
def attributeOrChild? (e : BoundElement) (name : String) : Option String :=
  (e.attribute? name).or (e.childContent? name)

/-- A text that is either an attribute or the element's own content. -/
def attributeOrContent? (e : BoundElement) (name : String) : Option String :=
  (e.attribute? name).or e.content?

/-- The name of a type, as an attribute or as the name of a child. -/
def typeName? (e : BoundElement) : Option String :=
  (e.attribute? "type").or ((e.child? "type").bind (·.attribute? "name"))

/-- The values of an attribute of all children of a name that have it. -/
def childAttributes (e : BoundElement) (child name : String) : List String :=
  (e.childrenNamed child).filterMap (·.attribute? name)

end BoundElement

end PersistenceMapping

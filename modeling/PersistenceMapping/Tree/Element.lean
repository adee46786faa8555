/-
Looking around from an element.

A tag matches an element by its full name or by its local name, and only children are
looked at: what stands deeper in the tree never answers.
-/
import PersistenceMapping.Text.Space
import PersistenceMapping.Tree.Document

namespace PersistenceMapping

namespace Document

/-- The children of a node that are elements. -/
def elementChildren (d : Document) (id : NodeId) : List NodeId :=
  (d.children id).filter d.isElement

/-- The parent of a node, if that is an element. -/
def elementParent? (d : Document) (id : NodeId) : Option NodeId :=
  (d.parent? id).filter d.isElement

/-- The name of an element. -/
def elementName (d : Document) (id : NodeId) : String :=
  (d.name? id).getD ""

/-- Whether a tag is an element's name, with or without its qualifier. -/
def matchesTag (d : Document) (tag : String) (id : NodeId) : Bool :=
  d.elementName id == tag || QName.localName (d.elementName id) == tag

/-- The element children with a tag. -/
def childrenTagged (d : Document) (id : NodeId) (tag : String) : List NodeId :=
  (d.elementChildren id).filter (d.matchesTag tag)

/-- The names from the root down to an element. -/
def path (d : Document) (id : NodeId) : String :=
  let above := (d.ancestorsOrSelf id).tail.takeWhile d.isElement
  (id :: above).reverse.foldl (fun s e => s ++ "/" ++ d.elementName e) "/#document"

/-- The one child with a tag. -/
def uniqueChild (d : Document) (id : NodeId) (tag : String) : Except TreeError NodeId :=
  match d.childrenTagged id tag with
  | [] => .error (.missingChild tag (d.path id))
  | [child] => .ok child
  | _ => .error (.severalChildren tag (d.path id))

/-- The first child with a tag. -/
def optionalChild (d : Document) (id : NodeId) (tag : String) : Option NodeId :=
  (d.childrenTagged id tag).head?

/-- The trimmed text of an element. -/
def trimmedText (d : Document) (id : NodeId) : String :=
  trim (d.deepText id)

/-- The trimmed text of the first child with a tag. -/
def optionalChildText (d : Document) (id : NodeId) (tag : String) : Option String :=
  (d.optionalChild id tag).map d.trimmedText

/-- Whether the first child with a tag says `true` or `yes`, in any case. -/
def childFlag (d : Document) (id : NodeId) (tag : String) : Bool :=
  match d.optionalChildText id tag with
  | some value => equalsIgnoringCase value "true" || equalsIgnoringCase value "yes"
  | none => false

/-- The root element. -/
def rootElement? (d : Document) : Option NodeId :=
  d.root.filter d.isElement

end Document

end PersistenceMapping

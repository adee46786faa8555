/-
What can be wrong with a request to a tree.
-/
namespace PersistenceMapping

/-- The number of a node in its document. -/
abbrev NodeId := Nat

/-- The kinds of nodes. -/
inductive NodeKind where
  | document
  | element
  | text
  | cdata
  | comment
  | instruction
  deriving DecidableEq, Repr

/-- The name of a kind in messages. -/
def NodeKind.label : NodeKind → String
  | document => "Document"
  | element => "Element"
  | text => "Text"
  | cdata => "CData"
  | comment => "Comment"
  | instruction => "ProcessingInstruction"

/-- Why an operation is not possible. -/
inductive InvalidOperation where
  | notAnElement (node : NodeId)
  | documentAsChild
  | secondRoot
  | refusedChild (child parent : NodeKind)
  /-- The child would come to stand inside itself. -/
  | cyclic
  | importedDocument
  | noRoot
  deriving DecidableEq, Repr

/-- The text of a reason. -/
def InvalidOperation.message : InvalidOperation → String
  | notAnElement node => s!"node {node} is not an element"
  | documentAsChild => "the document node cannot be a child"
  | secondRoot => "document already has a root element"
  | refusedChild child parent =>
    "cannot append " ++ child.label ++ " node to " ++ parent.label ++ " node"
  | cyclic => "cannot append a node to itself or its descendant"
  | importedDocument => "the document node cannot be imported"
  | noRoot => "mapping document has no root element"

/-- Why a tree does not do what it is asked. -/
inductive TreeError where
  | missingChild (tag path : String)
  | severalChildren (tag path : String)
  | foreignNode (node : NodeId)
  | invalidOperation (reason : InvalidOperation)
  deriving DecidableEq, Repr

/-- The text of an error. -/
def TreeError.message : TreeError → String
  | missingChild tag path => s!"expected one <{tag}> tag under {path}"
  | severalChildren tag path => s!"expected only one <{tag}> tag under {path}"
  | foreignNode node => s!"node {node} does not belong to this document"
  | invalidOperation reason => "invalid tree operation: " ++ reason.message

end PersistenceMapping

/-
Documents as trees of numbered nodes.

Nodes are numbered in the order in which they are made and are never destroyed; node 0
is the document itself.  A node that is not in the tree is detached: it has no parent, and
may have a subtree of its own.  Names and contents are interned, so a node holds numbers of
the document's string pool.

A node has five links: to its parent, to its first and its last child, and to the children of
its parent that stand right before and right after it.  The links say the same thing several
times over, and whoever changes one of them changes the others with it.  The children of a node
are what is met by going from the first from link to link.

The functions that follow links take as many steps as there are nodes at most.  In a document
whose links agree they come to an end before that.
-/
import PersistenceMapping.Token
import PersistenceMapping.Tree.Error
import PersistenceMapping.Tree.Pool

namespace PersistenceMapping

/-- An attribute of a node, as numbers of the string pool. -/
structure StoredAttribute where
  name : StringId
  value : StringId
  deriving DecidableEq, Repr

/-- What a node is, apart from its place in the tree. -/
inductive NodeValue where
  | document
  | element (name ns : StringId) (attributes : List StoredAttribute)
  | text (content : StringId)
  | cdata (content : StringId)
  | comment (content : StringId)
  | instruction (target data : StringId)
  deriving DecidableEq, Repr

/-- The kind of a value. -/
def NodeValue.kind : NodeValue → NodeKind
  | document => .document
  | element .. => .element
  | text _ => .text
  | cdata _ => .cdata
  | comment _ => .comment
  | instruction .. => .instruction

/-- A node and its place in the tree. -/
structure Node where
  value : NodeValue
  parent : Option NodeId := none
  firstChild : Option NodeId := none
  lastChild : Option NodeId := none
  /-- The sibling before the node. -/
  previous : Option NodeId := none
  /-- The sibling after the node. -/
  next : Option NodeId := none
  deriving DecidableEq, Repr

/-- A document: its nodes by number, its strings, and its root element. -/
structure Document where
  nodes : Array Node
  pool : Pool
  root : Option NodeId

namespace Document

/-- The node that is the document itself. -/
def documentNode : NodeId := 0

/-- A document without a root element.  The hash is that of its string pool. -/
def empty (hashOf : String → UInt64 := Pool.polynomialHash) : Document :=
  { nodes := #[{ value := .document }], pool := .empty hashOf, root := none }

/-! ### Nodes -/

/-- The node of a number. -/
def node? (d : Document) (id : NodeId) : Option Node :=
  d.nodes[id]?

/-- What a node is. -/
def value? (d : Document) (id : NodeId) : Option NodeValue :=
  (d.node? id).map (·.value)

/-- The kind of a node. -/
def kind? (d : Document) (id : NodeId) : Option NodeKind :=
  (d.value? id).map (·.kind)

/-- Whether a number is that of an element. -/
def isElement (d : Document) (id : NodeId) : Bool :=
  d.kind? id == some .element

/-- Whether a number is that of text or a CDATA section. -/
def isText (d : Document) (id : NodeId) : Bool :=
  d.kind? id == some .text || d.kind? id == some .cdata

/-! ### Links -/

/-- The parent of a node. -/
def parent? (d : Document) (id : NodeId) : Option NodeId :=
  (d.node? id).bind (·.parent)

/-- The first child of a node. -/
def firstChild? (d : Document) (id : NodeId) : Option NodeId :=
  (d.node? id).bind (·.firstChild)

/-- The last child of a node. -/
def lastChild? (d : Document) (id : NodeId) : Option NodeId :=
  (d.node? id).bind (·.lastChild)

/-- The sibling before a node. -/
def previous? (d : Document) (id : NodeId) : Option NodeId :=
  (d.node? id).bind (·.previous)

/-- The sibling after a node. -/
def next? (d : Document) (id : NodeId) : Option NodeId :=
  (d.node? id).bind (·.next)

/-- The nodes met by following a link from `start` on, at most `steps` of them. -/
def follow (link : NodeId → Option NodeId) : (steps : Nat) → (start : Option NodeId) → List NodeId
  | 0, _ => []
  | _ + 1, none => []
  | steps + 1, some id => id :: follow link steps (link id)

/-- The children of a node, in order. -/
def children (d : Document) (id : NodeId) : List NodeId :=
  follow d.next? d.nodes.size (d.firstChild? id)

/-- A node and its ancestors, from the inside out. -/
def ancestorsOrSelf (d : Document) (id : NodeId) : List NodeId :=
  follow d.parent? d.nodes.size (some id)

/-- Puts the children of a node on a stack.  They are met from the last to the first, so the
first comes to lie on top. -/
def pushChildren (d : Document) (id : NodeId) (stack : List NodeId) : List NodeId :=
  (follow d.previous? d.nodes.size (d.lastChild? id)).foldl (fun stack child => child :: stack)
    stack

/-- The nodes that a stack gives when each is replaced by its children as it is taken, at most
`steps` of them. -/
def walk (d : Document) : (steps : Nat) → (stack : List NodeId) → List NodeId
  | 0, _ => []
  | _ + 1, [] => []
  | steps + 1, id :: stack => id :: d.walk steps (d.pushChildren id stack)

/-- The descendants of a node, in document order. -/
def descendants (d : Document) (id : NodeId) : List NodeId :=
  d.walk d.nodes.size (d.pushChildren id [])

/-! ### Names and contents -/

/-- The name of an element or the target of a processing instruction. -/
def name? (d : Document) (id : NodeId) : Option String :=
  match d.value? id with
  | some (.element name _ _) => d.pool.get? name
  | some (.instruction target _) => d.pool.get? target
  | _ => none

/-- The name of a node without its qualifier. -/
def localName? (d : Document) (id : NodeId) : Option String :=
  (d.name? id).map QName.localName

/-- The namespace of an element; the empty one counts as none. -/
def namespace? (d : Document) (id : NodeId) : Option String :=
  match d.value? id with
  | some (.element _ ns _) => if ns = 0 then none else d.pool.get? ns
  | _ => none

/-- The content of text, a CDATA section or a comment. -/
def text? (d : Document) (id : NodeId) : Option String :=
  match d.value? id with
  | some (.text content) => d.pool.get? content
  | some (.cdata content) => d.pool.get? content
  | some (.comment content) => d.pool.get? content
  | _ => none

/-- The data of a processing instruction. -/
def data? (d : Document) (id : NodeId) : Option String :=
  match d.value? id with
  | some (.instruction _ data) => d.pool.get? data
  | _ => none

/-- The attributes of a node as they are stored. -/
def storedAttributes (d : Document) (id : NodeId) : List StoredAttribute :=
  match d.value? id with
  | some (.element _ _ attributes) => attributes
  | _ => []

/-- An attribute as text. -/
def readAttribute (d : Document) (a : StoredAttribute) : Attribute :=
  ⟨d.pool.getD a.name, d.pool.getD a.value⟩

/-- The attributes of a node, in order. -/
def attributes (d : Document) (id : NodeId) : List Attribute :=
  (d.storedAttributes id).map d.readAttribute

/-- The value of an attribute. -/
def attribute? (d : Document) (id : NodeId) (name : String) : Option String :=
  Attributes.get? (d.attributes id) name

/-- All character data below a node, in document order. -/
def deepText (d : Document) (id : NodeId) : String :=
  String.join (((d.descendants id).filter d.isText).filterMap d.text?)

end Document

end PersistenceMapping

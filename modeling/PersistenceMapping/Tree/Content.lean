/-
What a subtree says, apart from where it is stored.

`Content` is a tree of names, attributes and texts; `Document.content?` reads it off a node.
Two nodes of whatever documents are copies of each other when their contents are equal.

A node is made detached and then linked to its parent.  Linking puts it behind the last child;
taking it away again closes the gap between its neighbours.
-/
import PersistenceMapping.Tree.Document

namespace PersistenceMapping

/-- A node and all that is below it, by value. -/
inductive Content where
  | document (children : List Content)
  | element (name : String) (ns : Option String) (attributes : List Attribute)
      (children : List Content)
  | text (content : String)
  | cdata (content : String)
  | comment (content : String)
  | instruction (target data : String)
  deriving Repr

namespace Document

/-- The content of a node of some value, given the contents of its children. -/
def contentOf (d : Document) (children : List Content) : NodeValue → Content
  | .document => .document children
  | .element name ns attributes =>
    .element (d.pool.getD name) (if ns = 0 then none else d.pool.get? ns)
      (attributes.map d.readAttribute) children
  | .text content => .text (d.pool.getD content)
  | .cdata content => .cdata (d.pool.getD content)
  | .comment content => .comment (d.pool.getD content)
  | .instruction target data => .instruction (d.pool.getD target) (d.pool.getD data)

/-- The content of a node, down to `depth` levels below it. -/
def contentWithin (d : Document) (depth : Nat) (id : NodeId) : Option Content :=
  let children :=
    match depth with
    | 0 => []
    | depth + 1 => (d.children id).filterMap (d.contentWithin depth)
  (d.value? id).map (d.contentOf children)

/-- The content of a node. -/
def content? (d : Document) (id : NodeId) : Option Content :=
  d.contentWithin d.nodes.size id

/-- The contents of what stands at document level. -/
def body (d : Document) : List Content :=
  (d.children documentNode).filterMap d.content?

/-! ### Making nodes -/

/-- Interns a string. -/
def intern (d : Document) (s : String) : StringId × Document :=
  let (id, pool) := d.pool.intern s
  (id, { d with pool })

/-- Interns the names and values of attributes, each name before its value. -/
def internAttributes (d : Document) : List Attribute → List StoredAttribute × Document
  | [] => ([], d)
  | a :: rest =>
    let (name, d) := d.intern a.name
    let (value, d) := d.intern a.value
    let (stored, d) := d.internAttributes rest
    (⟨name, value⟩ :: stored, d)

/-- Adds a detached node. -/
def push (d : Document) (value : NodeValue) : NodeId × Document :=
  (d.nodes.size, { d with nodes := d.nodes.push { value } })

/-- Gives an attribute of a list another value, or appends one. -/
def putStored (name value : StringId) : List StoredAttribute → List StoredAttribute
  | [] => [⟨name, value⟩]
  | a :: rest => if a.name = name then ⟨name, value⟩ :: rest else a :: putStored name value rest

/-- Attributes of distinct names: a repeated name keeps its first place and its last value. -/
def collapse (attributes : List StoredAttribute) : List StoredAttribute :=
  attributes.foldl (fun kept a => putStored a.name a.value kept) []

/-- Adds a detached element. -/
def pushElement (d : Document) (name : String) (ns : Option String)
    (attributes : List Attribute) : NodeId × Document :=
  let (name, d) := d.intern name
  let (ns, d) := d.intern (ns.getD "")
  let (attributes, d) := d.internAttributes attributes
  d.push (.element name ns (collapse attributes))

/-- Adds a detached node of text. -/
def pushText (d : Document) (content : String) : NodeId × Document :=
  let (content, d) := d.intern content
  d.push (.text content)

/-- Adds a detached CDATA section. -/
def pushCdata (d : Document) (content : String) : NodeId × Document :=
  let (content, d) := d.intern content
  d.push (.cdata content)

/-- Adds a detached comment. -/
def pushComment (d : Document) (content : String) : NodeId × Document :=
  let (content, d) := d.intern content
  d.push (.comment content)

/-- Adds a detached processing instruction. -/
def pushInstruction (d : Document) (target data : String) : NodeId × Document :=
  let (target, d) := d.intern target
  let (data, d) := d.intern data
  d.push (.instruction target data)

/-! ### Places -/

/-- Changes a node in its place. -/
def modify (d : Document) (id : NodeId) (f : Node → Node) : Document :=
  { d with nodes := d.nodes.modify id f }

/-- Makes a detached node the last child of another. -/
def link (d : Document) (parent child : NodeId) : Document :=
  let beside :=
    match d.lastChild? parent with
    | some last =>
      (d.modify child fun n => { n with previous := some last }).modify last
        fun n => { n with next := some child }
    | none => d.modify parent fun n => { n with firstChild := some child }
  (beside.modify parent fun n => { n with lastChild := some child }).modify child
    fun n => { n with parent := some parent }

/-- Takes a node from its parent and from its siblings. -/
def unlink (d : Document) (id : NodeId) : Document :=
  let parent := d.parent? id
  let previous := d.previous? id
  let next := d.next? id
  let forward :=
    match previous, parent with
    | some p, _ => d.modify p fun n => { n with next }
    | none, some p => d.modify p fun n => { n with firstChild := next }
    | none, none => d
  let closed :=
    match next, parent with
    | some s, _ => forward.modify s fun n => { n with previous }
    | none, some p => forward.modify p fun n => { n with lastChild := previous }
    | none, none => forward
  { closed.modify id fun n => { n with parent := none, previous := none, next := none } with
    root := if d.root = some id then none else d.root }

/-- Makes a detached node the last child of another; an element below the document itself is
the root from then on. -/
def attach (d : Document) (parent child : NodeId) : Document :=
  let linked := d.link parent child
  if parent = documentNode && d.isElement child then { linked with root := some child } else linked

end Document

end PersistenceMapping

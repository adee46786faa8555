/-
Changing a document.

An edit may fail, and what it did before that stands (`Edit`).  Each of the primitive
edits checks first and changes afterwards, so a primitive edit that fails has changed
nothing; `addChild` is put together from two of them and leaves a detached element behind
when the second fails.

Appending a node moves it: it is taken from where it stands, with all that is below it.
-/
import PersistenceMapping.Tree.Content

namespace PersistenceMapping

/-- A change to a document that may fail. -/
abbrev Edit := ExceptT TreeError (StateM Document)

/-- Runs an edit: its result, and the document after it. -/
def Edit.apply {α : Type} (edit : Edit α) (d : Document) : Except TreeError α × Document :=
  edit.run.run d

namespace Document

/-! ### Attributes and names -/

/-- Gives a node another value in its place. -/
def setValue (d : Document) (id : NodeId) (f : NodeValue → NodeValue) : Document :=
  d.modify id fun n => { n with value := f n.value }

/-- Changes the stored attributes of an element. -/
def mapAttributes (d : Document) (id : NodeId)
    (f : List StoredAttribute → List StoredAttribute) : Document :=
  d.setValue id fun value =>
    match value with
    | .element name ns attributes => .element name ns (f attributes)
    | other => other

/-- Gives an attribute of an element a value. -/
def putAttribute (d : Document) (id : NodeId) (name value : String) : Document :=
  let (name, d) := d.intern name
  let (value, d) := d.intern value
  d.mapAttributes id (putStored name value)

/-- Removes an attribute from an element. -/
def dropAttribute (d : Document) (id : NodeId) (name : String) : Document :=
  d.mapAttributes id fun attributes => attributes.eraseP fun a => d.pool.getD a.name == name

/-- Changes the stored name of an element. -/
def mapName (d : Document) (id : NodeId) (name : StringId) : Document :=
  d.setValue id fun value =>
    match value with
    | .element _ ns attributes => .element name ns attributes
    | other => other

/-- Gives an element another name. -/
def putName (d : Document) (id : NodeId) (name : String) : Document :=
  let (name, d) := d.intern name
  d.mapName id name

/-- Takes a node from where it is and makes it the last child of another. -/
def move (d : Document) (parent child : NodeId) : Document :=
  (d.unlink child).attach parent child

/-! ### Copies -/

/-- Copies nodes one after the other and links each copy below `copy`. -/
def copyBelow (copyChild : Document → NodeId → NodeId × Document) (copy : NodeId) (d : Document) :
    List NodeId → Document
  | [] => d
  | child :: rest =>
    let (childCopy, d) := copyChild d child
    copyBelow copyChild copy (d.link copy childCopy) rest

/-- Copies a node and what is below it, down to `depth` levels.  `copyNode` copies the node
alone; `childrenOf` gives the children of the original, which may be a node of the document that
is changed. -/
def copyTree (copyNode : Document → NodeId → NodeId × Document)
    (childrenOf : Document → NodeId → List NodeId) :
    (depth : Nat) → Document → NodeId → NodeId × Document
  | 0, d, id => copyNode d id
  | depth + 1, d, id =>
    let (copy, d) := copyNode d id
    (copy, copyBelow (copyTree copyNode childrenOf depth) copy d (childrenOf d id))

/-- Makes a detached node of the same value. -/
def copyNode (d : Document) (id : NodeId) : NodeId × Document :=
  d.push ((d.value? id).getD .document)

/-- Makes a detached copy of a subtree. -/
def cloneTree (d : Document) (id : NodeId) : NodeId × Document :=
  copyTree copyNode children d.nodes.size d id

/-- The value that means in this document what another value means in `source`. -/
def internValue (d source : Document) : NodeValue → NodeValue × Document
  | .document => (.document, d)
  | .element name ns attributes =>
    let (name, d) := d.intern (source.pool.getD name)
    let (ns, d) := d.intern (source.pool.getD ns)
    let (attributes, d) := d.internAttributes (attributes.map source.readAttribute)
    (.element name ns attributes, d)
  | .text content =>
    let (content, d) := d.intern (source.pool.getD content)
    (.text content, d)
  | .cdata content =>
    let (content, d) := d.intern (source.pool.getD content)
    (.cdata content, d)
  | .comment content =>
    let (content, d) := d.intern (source.pool.getD content)
    (.comment content, d)
  | .instruction target data =>
    let (target, d) := d.intern (source.pool.getD target)
    let (data, d) := d.intern (source.pool.getD data)
    (.instruction target data, d)

/-- Makes a detached node of the value that a node of another document has. -/
def importValue (source d : Document) (id : NodeId) : NodeId × Document :=
  let (value, d) := d.internValue source ((source.value? id).getD .document)
  d.push value

/-- Makes a detached copy of a subtree of another document. -/
def importTree (d source : Document) (id : NodeId) : NodeId × Document :=
  copyTree source.importValue (fun _ => source.children) source.nodes.size d id

/-! ### Checks -/

/-- Fails for a number that no node has. -/
def checkNode (d : Document) (id : NodeId) : Except TreeError Node :=
  match d.node? id with
  | some node => .ok node
  | none => .error (.foreignNode id)

/-- Fails for all but elements. -/
def checkElement (d : Document) (id : NodeId) : Except TreeError Unit := do
  let _ ← d.checkNode id
  if d.isElement id then .ok () else .error (.invalidOperation (.notAnElement id))

/-- Whether a kind of node may be a child of another.  A second root element is refused
elsewhere. -/
def checkKinds (parent child : NodeKind) : Except InvalidOperation Unit :=
  match parent, child with
  | _, .document => .error .documentAsChild
  | .element, _ => .ok ()
  | .document, .element => .ok ()
  | .document, .comment => .ok ()
  | .document, .instruction => .ok ()
  | _, _ => .error (.refusedChild child parent)

/-- Fails where a node may not become a child of another. -/
def checkMove (d : Document) (parent child : NodeId) : Except TreeError Unit := do
  let p ← d.checkNode parent
  let c ← d.checkNode child
  match checkKinds p.value.kind c.value.kind with
  | .error reason => .error (.invalidOperation reason)
  | .ok () =>
    if p.value.kind = .document && c.value.kind = .element && d.root.any (· ≠ child) then
      .error (.invalidOperation .secondRoot)
    else if (d.ancestorsOrSelf parent).contains child then .error (.invalidOperation .cyclic)
    else .ok ()

end Document

namespace Edit

open Document

/-- Changes the document. -/
def update (f : Document → Document) : Edit Unit :=
  modify f

/-- Changes the document and gives the number of a node. -/
def make (f : Document → NodeId × Document) : Edit NodeId :=
  modifyGet f

/-- Fails as a check of the document does. -/
def require {α : Type} (check : Document → Except TreeError α) : Edit α := do
  match check (← get) with
  | .ok a => pure a
  | .error e => throw e

/-- Makes a detached element. -/
def createElement (name : String) : Edit NodeId :=
  make fun d => d.pushElement name none []

/-- Makes a detached text. -/
def createText (content : String) : Edit NodeId :=
  make fun d => d.pushText content

/-- Makes a node the last child of another, wherever it stood before. -/
def append (parent child : NodeId) : Edit Unit := do
  require fun d => d.checkMove parent child
  update fun d => d.move parent child

/-- Gives an attribute of an element a value. -/
def setAttribute (id : NodeId) (name value : String) : Edit Unit := do
  require fun d => d.checkElement id
  update fun d => d.putAttribute id name value

/-- Removes an attribute from an element and gives the value that it had. -/
def removeAttribute (id : NodeId) (name : String) : Edit (Option String) := do
  require fun d => d.checkElement id
  let value := (← get).attribute? id name
  update fun d => d.dropAttribute id name
  pure value

/-- Gives an element another name. -/
def rename (id : NodeId) (name : String) : Edit Unit := do
  require fun d => d.checkElement id
  update fun d => d.putName id name

/-- Makes a detached copy of a subtree. -/
def cloneSubtree (id : NodeId) : Edit NodeId := do
  let _ ← require fun d => d.checkNode id
  make fun d => d.cloneTree id

/-- Makes a detached copy of an element's subtree under another name. -/
def cloneWithName (id : NodeId) (name : String) : Edit NodeId := do
  if !(← get).isElement id then throw (.invalidOperation (.notAnElement id))
  let copy ← cloneSubtree id
  rename copy name
  pure copy

/-- Makes a detached copy of a subtree of another document. -/
def importNode (source : Document) (id : NodeId) : Edit NodeId :=
  match source.kind? id with
  | none => throw (.foreignNode id)
  | some .document => throw (.invalidOperation .importedDocument)
  | some _ => make fun d => d.importTree source id

/-- Makes an element and appends it. -/
def addChild (parent : NodeId) (name : String) : Edit NodeId := do
  let child ← createElement name
  append parent child
  pure child

end Edit

/-! ### Nodes of several documents -/

/-- What tells documents apart. -/
abbrev DocumentId := Nat

/-- A node together with the document that it belongs to. -/
structure NodeRef where
  owner : DocumentId
  node : NodeId
  deriving DecidableEq, Repr

/-- Makes a node usable in the document `self`.  A node of that document is itself; a node of
`source` is copied; any other is refused. -/
def Edit.ensureOwner (self : DocumentId) (ref : NodeRef)
    (source : Option (DocumentId × Document)) : Edit NodeId := do
  if ref.owner = self then
    Edit.require fun d => (d.checkNode ref.node).map fun _ => ref.node
  else
    match source with
    | some (owner, document) =>
      if owner = ref.owner then Edit.importNode document ref.node
      else throw (.foreignNode ref.node)
    | none => throw (.foreignNode ref.node)

end PersistenceMapping

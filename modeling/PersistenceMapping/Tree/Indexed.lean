/-
Changing a document without asking whether nodes exist.

An edit checks the numbers that it is given, and then changes nodes by their numbers as if there
were no others.  Here every such access says which number it takes for granted: `indexed` has no
result where the node does not exist.  Nor has a copy a result when it comes to its last level with
children left.

`IndexedEdit` are the edits over these changes.  What they give where all goes well is what the
edits give, so all that they tell is whether a number was taken for granted that no node has.
-/
import PersistenceMapping.Tree.Edit

namespace PersistenceMapping

namespace Document

/-- What comes of looking up a node whose existence is taken for granted. -/
def indexed {α : Type} (d : Document) (id : NodeId) (result : α) : Option α :=
  if id < d.nodes.size then some result else none

/-! ### Places -/

/-- Changes a node in its place. -/
def modify? (d : Document) (id : NodeId) (f : Node → Node) : Option Document :=
  d.indexed id (d.modify id f)

/-- Makes a detached node the last child of another. -/
def link? (d : Document) (parent child : NodeId) : Option Document :=
  (d.node? parent).bind fun node =>
    let beside :=
      match node.lastChild with
      | some last =>
        (d.modify? child fun n => { n with previous := some last }).bind fun d =>
          d.modify? last fun n => { n with next := some child }
      | none => d.modify? parent fun n => { n with firstChild := some child }
    (beside.bind fun d => d.modify? parent fun n => { n with lastChild := some child }).bind
      fun d => d.modify? child fun n => { n with parent := some parent }

/-- Takes a node from its parent and from its siblings. -/
def unlink? (d : Document) (id : NodeId) : Option Document :=
  (d.node? id).bind fun node =>
    let forward :=
      match node.previous, node.parent with
      | some p, _ => d.modify? p fun n => { n with next := node.next }
      | none, some p => d.modify? p fun n => { n with firstChild := node.next }
      | none, none => some d
    let closed :=
      match node.next, node.parent with
      | some s, _ => forward.bind fun d => d.modify? s fun n => { n with previous := node.previous }
      | none, some p =>
        forward.bind fun d => d.modify? p fun n => { n with lastChild := node.previous }
      | none, none => forward
    let alone := closed.bind fun d =>
      d.modify? id fun n => { n with parent := none, previous := none, next := none }
    alone.map fun d' => { d' with root := if d.root = some id then none else d.root }

/-- Makes a detached node the last child of another; an element below the document itself is
the root from then on. -/
def attach? (d : Document) (parent child : NodeId) : Option Document :=
  (d.link? parent child).map fun linked =>
    if parent = documentNode && d.isElement child then { linked with root := some child }
    else linked

/-- Takes a node from where it is and makes it the last child of another. -/
def move? (d : Document) (parent child : NodeId) : Option Document :=
  (d.unlink? child).bind fun d => d.attach? parent child

/-! ### Copies -/

/-- Copies nodes one after the other and links each copy below `copy`. -/
def copyBelow? (copyChild : Document → NodeId → Option (NodeId × Document)) (copy : NodeId)
    (d : Document) : List NodeId → Option Document
  | [] => some d
  | child :: rest =>
    (copyChild d child).bind fun (childCopy, d) =>
      (d.link? copy childCopy).bind fun d => copyBelow? copyChild copy d rest

/-- Copies a node and what is below it, which may reach down `depth` levels. -/
def copyTree? (copyNode : Document → NodeId → Option (NodeId × Document))
    (childrenOf : Document → NodeId → List NodeId) :
    (depth : Nat) → Document → NodeId → Option (NodeId × Document)
  | 0, _, _ => none
  | depth + 1, d, id =>
    (copyNode d id).bind fun (copy, d) =>
      (copyBelow? (copyTree? copyNode childrenOf depth) copy d (childrenOf d id)).map (copy, ·)

/-- Makes a detached copy of a subtree. -/
def cloneTree? (d : Document) (id : NodeId) : Option (NodeId × Document) :=
  copyTree? (fun d id => d.indexed id (d.copyNode id)) children (d.nodes.size + 1) d id

/-- Makes a detached copy of a subtree of another document. -/
def importTree? (d source : Document) (id : NodeId) : Option (NodeId × Document) :=
  copyTree? (fun d id => source.indexed id (source.importValue d id)) (fun _ => source.children)
    (source.nodes.size + 1) d id

end Document

/-! ### Edits -/

/-- A change to a document that may fail, and that has no result where it takes a node for granted
that does not exist. -/
abbrev IndexedEdit := ExceptT TreeError (StateT Document Option)

/-- Runs an edit: its result, and the document after it. -/
def IndexedEdit.apply {α : Type} (edit : IndexedEdit α) (d : Document) :
    Option (Except TreeError α × Document) :=
  edit.run.run d

namespace IndexedEdit

open Document

/-- Changes the document. -/
def update (f : Document → Option Document) : IndexedEdit Unit :=
  ExceptT.lift fun d => (f d).map fun d => ((), d)

/-- Changes the document and gives the number of a node. -/
def make (f : Document → Option (NodeId × Document)) : IndexedEdit NodeId :=
  ExceptT.lift f

/-- Fails as a check of the document does. -/
def require {α : Type} (check : Document → Except TreeError α) : IndexedEdit α := do
  match check (← get) with
  | .ok a => pure a
  | .error e => throw e

/-- Makes a detached element. -/
def createElement (name : String) : IndexedEdit NodeId :=
  make fun d => some (d.pushElement name none [])

/-- Makes a detached text. -/
def createText (content : String) : IndexedEdit NodeId :=
  make fun d => some (d.pushText content)

/-- Makes a node the last child of another, wherever it stood before. -/
def append (parent child : NodeId) : IndexedEdit Unit := do
  require fun d => d.checkMove parent child
  update fun d => d.move? parent child

/-- Gives an attribute of an element a value. -/
def setAttribute (id : NodeId) (name value : String) : IndexedEdit Unit := do
  require fun d => d.checkElement id
  update fun d => d.indexed id (d.putAttribute id name value)

/-- Removes an attribute from an element and gives the value that it had. -/
def removeAttribute (id : NodeId) (name : String) : IndexedEdit (Option String) := do
  require fun d => d.checkElement id
  let value := (← get).attribute? id name
  update fun d => d.indexed id (d.dropAttribute id name)
  pure value

/-- Gives an element another name. -/
def rename (id : NodeId) (name : String) : IndexedEdit Unit := do
  require fun d => d.checkElement id
  update fun d => d.indexed id (d.putName id name)

/-- Makes a detached copy of a subtree. -/
def cloneSubtree (id : NodeId) : IndexedEdit NodeId := do
  let _ ← require fun d => d.checkNode id
  make fun d => d.cloneTree? id

/-- Makes a detached copy of an element's subtree under another name. -/
def cloneWithName (id : NodeId) (name : String) : IndexedEdit NodeId := do
  if !(← get).isElement id then throw (.invalidOperation (.notAnElement id))
  let copy ← cloneSubtree id
  rename copy name
  pure copy

/-- Makes a detached copy of a subtree of another document. -/
def importNode (source : Document) (id : NodeId) : IndexedEdit NodeId :=
  match source.kind? id with
  | none => throw (.foreignNode id)
  | some .document => throw (.invalidOperation .importedDocument)
  | some _ => make fun d => d.importTree? source id

/-- Makes an element and appends it. -/
def addChild (parent : NodeId) (name : String) : IndexedEdit NodeId := do
  let child ← createElement name
  append parent child
  pure child

/-- Makes a node usable in the document `self`. -/
def ensureOwner (self : DocumentId) (ref : NodeRef) (source : Option (DocumentId × Document)) :
    IndexedEdit NodeId := do
  if ref.owner = self then
    require fun d => (d.checkNode ref.node).map fun _ => ref.node
  else
    match source with
    | some (owner, document) =>
      if owner = ref.owner then importNode document ref.node
      else throw (.foreignNode ref.node)
    | none => throw (.foreignNode ref.node)

end IndexedEdit

end PersistenceMapping

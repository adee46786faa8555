/-
Binding a document to a schema.

Binding turns tokens into a tree of declared elements with their attributes, defaults
included.  Validation refuses whatever is not declared; without it, undeclared elements
are skipped with all that is in them, undeclared attributes and stray text are dropped, and
values are taken as they are.

Names are compared without their qualifiers.  Attributes with a qualifier, and namespace
declarations, are nobody's concern.
-/
import PersistenceMapping.Dialect.Hierarchical
import PersistenceMapping.Schema.Compile

namespace PersistenceMapping

/-- An element of a schema, with its attributes, defaults included, and its own text. -/
inductive BoundElement where
  | mk (name : String) (attributes : List Attribute) (children : List BoundElement)
      (text : String)
  deriving Repr

namespace BoundElement

def name : BoundElement → String
  | mk name _ _ _ => name

def attributes : BoundElement → List Attribute
  | mk _ attributes _ _ => attributes

def children : BoundElement → List BoundElement
  | mk _ _ children _ => children

/-- The character data that stands directly in an element, as it is. -/
def text : BoundElement → String
  | mk _ _ _ text => text

end BoundElement

/-- Why a document is not bound. -/
inductive BindFault where
  | source (error : TokenError)
  | afterRoot (name : String)
  | otherRoot (name expected : String)
  | undeclaredElement (name parent : String)
  | otherNamespace (name ns : String)
  | badValue (value name element : String) (kind : ValueKind)
  | undeclaredAttribute (name element : String)
  | missingAttribute (name element : String)
  | strayEnd (name : String)
  | mismatchedEnd (opened closed : String)
  | strayText (element : String)
  | unclosed (name : String)
  | noRoot
  deriving DecidableEq, Repr

/-- The text of a fault. -/
def BindFault.message : BindFault → String
  | source error => error.message
  | afterRoot name => s!"unexpected element <{name}> after the root element"
  | otherRoot name expected => s!"unexpected root element <{name}>, expected <{expected}>"
  | undeclaredElement name parent => s!"element <{name}> is not allowed in <{parent}>"
  | otherNamespace name ns =>
    s!"element <{name}> is in namespace {ns}, expected " ++ Dialect.Hierarchical.canonicalNamespace
  | badValue value name element kind =>
    s!"value '{value}' of attribute '{name}' in <{element}> is not a valid " ++ kind.label
  | undeclaredAttribute name element => s!"attribute '{name}' is not allowed in <{element}>"
  | missingAttribute name element => s!"attribute '{name}' is required in <{element}>"
  | strayEnd name => s!"unexpected end tag </{name}>"
  | mismatchedEnd opened closed => s!"tag mismatch: <{opened}> closed with </{closed}>"
  | strayText element => s!"character data is not allowed in <{element}>"
  | unclosed name => s!"unexpected end of document inside <{name}>"
  | noRoot => "document has no root element"

namespace ElementDecl

/-! ### Attributes -/

/-- The attributes of a tag that are declared. -/
def bindGiven (decl : ElementDecl) (validate : Bool) :
    List Attribute → Except BindFault (List Attribute)
  | [] => .ok []
  | a :: rest =>
    if a.declaresNamespace || a.qualifier?.isSome then bindGiven decl validate rest
    else
      match decl.attribute? a.name with
      | some declared =>
        if validate && !declared.kind.accepts a.value then
          .error (.badValue a.value a.name decl.name declared.kind)
        else (bindGiven decl validate rest).map (a :: ·)
      | none =>
        if validate then .error (.undeclaredAttribute a.name decl.name)
        else bindGiven decl validate rest

/-- The defaults of the declared attributes that are not among the given ones. -/
def bindMissing (element : String) (validate : Bool) (given : List Attribute) :
    List AttributeDecl → Except BindFault (List Attribute)
  | [] => .ok []
  | declared :: rest =>
    if (Attributes.get? given declared.name).isSome then bindMissing element validate given rest
    else
      match declared.default with
      | some value => (bindMissing element validate given rest).map (⟨declared.name, value⟩ :: ·)
      | none =>
        if declared.required && validate then .error (.missingAttribute declared.name element)
        else bindMissing element validate given rest

/-- The declared attributes of a tag: those given, then the defaults of those missing. -/
def bindAttributes (decl : ElementDecl) (validate : Bool) (attributes : List Attribute) :
    Except BindFault (List Attribute) := do
  let given ← decl.bindGiven validate attributes
  let missing ← bindMissing decl.name validate given decl.attributes
  .ok (given ++ missing)

end ElementDecl

namespace Schema

/-! ### Tokens -/

/-- An open element. -/
structure Frame where
  decl : ElementDecl
  attributes : List Attribute
  /-- The children so far, last first. -/
  children : List BoundElement := []
  text : String := ""

/-- What has been bound so far. -/
structure Progress where
  /-- The open elements, innermost first. -/
  opened : List Frame := []
  root : Option BoundElement := none
  /-- How many elements are open that are skipped. -/
  skipped : Nat := 0

/-- The bound element of a frame. -/
def Frame.close (f : Frame) : BoundElement :=
  .mk f.decl.name f.attributes f.children.reverse f.text

/-- The declaration of an element of a local name inside the open elements.  Nothing where it
is not declared there but may be skipped. -/
def declarationIn (schema : Schema) (validate : Bool) (opened : List Frame) (tag : StartTag) :
    Except BindFault (Option ElementDecl) :=
  let localName := tag.localName
  match opened with
  | [] =>
    match (schema.element? localName).filter fun _ => localName = schema.root with
    | some decl => .ok (some decl)
    | none => .error (.otherRoot tag.name schema.root)
  | parent :: _ =>
    match (schema.element? localName).filter fun _ => parent.decl.permits localName with
    | some decl => .ok (some decl)
    | none =>
      if validate then .error (.undeclaredElement localName parent.decl.name) else .ok none

/-- The frame of a start tag. -/
def openFrame (validate : Bool) (decl : ElementDecl) (tag : StartTag) : Except BindFault Frame :=
  match tag.ns.filter fun ns => validate && ns != Dialect.Hierarchical.canonicalNamespace with
  | some ns => .error (.otherNamespace tag.name ns)
  | none => (decl.bindAttributes validate tag.attributes).map fun attributes => { decl, attributes }

/-- Takes in the start of an element. -/
def readStart (schema : Schema) (validate : Bool) (p : Progress) (tag : StartTag) :
    Except BindFault Progress :=
  if p.root.isSome then .error (.afterRoot tag.name)
  else
    match schema.declarationIn validate p.opened tag with
    | .error fault => .error fault
    | .ok none => .ok { p with skipped := 1 }
    | .ok (some decl) =>
      (openFrame validate decl tag).map fun frame => { p with opened := frame :: p.opened }

/-- Takes in the end of an element. -/
def readEnd (p : Progress) (name : String) : Except BindFault Progress :=
  match p.opened with
  | [] => .error (.strayEnd name)
  | frame :: rest =>
    if QName.localName name = frame.decl.name then
      match rest with
      | [] => .ok { p with opened := [], root := some frame.close }
      | parent :: above =>
        .ok { p with opened := { parent with children := frame.close :: parent.children } :: above }
    else .error (.mismatchedEnd frame.decl.name name)

/-- Takes in character data. -/
def readText (validate : Bool) (p : Progress) (content : String) : Except BindFault Progress :=
  match p.opened with
  | [] => .ok p
  | frame :: rest =>
    if frame.decl.hasText then
      .ok { p with opened := { frame with text := frame.text ++ content } :: rest }
    else if validate && !isBlankText content then .error (.strayText frame.decl.name)
    else .ok p

/-- Takes in a token inside an element that is skipped, which counts tags and nothing else. -/
def skip (p : Progress) : Token → Progress
  | .startTag _ => { p with skipped := p.skipped + 1 }
  | .endTag _ => { p with skipped := p.skipped - 1 }
  | _ => p

/-- Takes in one token. -/
def read (schema : Schema) (validate : Bool) (p : Progress) (token : Token) :
    Except BindFault Progress :=
  if 0 < p.skipped then .ok (skip p token)
  else
    match token with
    | .startTag tag => schema.readStart validate p tag
    | .endTag name => readEnd p name
    | .text content => readText validate p content
    | .cdata content => readText validate p content
    | _ => .ok p

/-- The root element, if all elements are closed and there was one. -/
def Progress.finish (p : Progress) : Except BindFault BoundElement :=
  match p.opened with
  | frame :: _ => .error (.unclosed frame.decl.name)
  | [] =>
    match p.root with
    | some root => .ok root
    | none => .error .noRoot

/-- Takes in tokens up to the document end.  Inside an element that is skipped a document end
is a token like others. -/
def run (schema : Schema) (validate : Bool) (failure : Option TokenError) (p : Progress) :
    List Outcome → Except BindFault BoundElement
  | [] =>
    match failure with
    | some e => .error (.source e)
    | none => p.finish
  | .error e :: _ => .error (.source e)
  | .ok token :: rest =>
    if token = .endDocument && p.skipped = 0 then p.finish
    else
      match schema.read validate p token with
      | .error fault => .error fault
      | .ok p => run schema validate failure p rest

/-- The root element of a stream. -/
def bind (schema : Schema) (validate : Bool) (s : TokenStream) : Except BindFault BoundElement :=
  schema.run validate s.failure {} s.items

end Schema

end PersistenceMapping

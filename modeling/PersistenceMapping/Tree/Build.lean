/-
Building a document from tokens.

A builder keeps the elements that are open, and every token either extends the innermost
of them, opens one or closes it.  At document level there may be comments and processing
instructions and one element; character data there is dropped, or refused in strict mode.
Strict mode refuses repeated attributes as well, of which otherwise the last value is kept.

What follows the document end is not read.
-/
import PersistenceMapping.Markup.Reader
import PersistenceMapping.Tree.Content

namespace PersistenceMapping

/-- Why a sequence of tokens is not that of a document. -/
inductive ShapeFault where
  | noDocumentStart (found : Token)
  | noTokens
  | innerDocumentStart
  | severalRoots
  | duplicateAttribute (name : String)
  | strayEnd (name : String)
  | mismatchedEnd (opened closed : String)
  | textOutside
  | cdataOutside
  | unclosed (name : String)
  | noRoot
  deriving DecidableEq, Repr

/-- A token as messages refer to it. -/
def Token.description : Token → String
  | startTag tag => "<" ++ tag.name ++ ">"
  | endTag name => "</" ++ name ++ ">"
  | text _ => "character data"
  | cdata _ => "character data"
  | comment _ => "a comment"
  | instruction target _ => "<?" ++ target ++ "?>"
  | doctype _ => "a DOCTYPE"
  | startDocument .. => "a document start"
  | endDocument => "the end of the document"

/-- The text of a fault. -/
def ShapeFault.message : ShapeFault → String
  | noDocumentStart found =>
    "token stream must open with a document start, found " ++ found.description
  | noTokens => "empty token stream"
  | innerDocumentStart => "document start inside a document"
  | severalRoots => "document has multiple root elements"
  | duplicateAttribute name => "duplicate attribute: " ++ name
  | strayEnd name => s!"unexpected end tag </{name}> without matching start tag"
  | mismatchedEnd opened closed => s!"tag mismatch: <{opened}> closed with </{closed}>"
  | textOutside => "text content not allowed at document level"
  | cdataOutside => "CDATA section not allowed at document level"
  | unclosed name => s!"unclosed element <{name}>"
  | noRoot => "document has no root element"

/-- Why no document is built. -/
inductive BuildError where
  | source (error : TokenError)
  | shape (fault : ShapeFault)
  deriving DecidableEq, Repr

/-- The text of an error. -/
def BuildError.message : BuildError → String
  | source error => error.message
  | shape fault => "malformed XML: " ++ fault.message

/-- The first attribute that has a later one of the same name. -/
def Attributes.firstRepeated? : List Attribute → Option String
  | [] => none
  | a :: rest => if rest.any (·.name == a.name) then some a.name else firstRepeated? rest

/-- A document in the making. -/
structure Builder where
  document : Document
  /-- The open elements and their names, innermost first. -/
  opened : List (NodeId × String)

namespace Builder

/-- A builder before its first token. -/
def initial : Builder :=
  { document := .empty, opened := [] }

/-- The node whose children come next. -/
def parent (b : Builder) : NodeId :=
  (b.opened.head?.map (·.1)).getD Document.documentNode

/-- Appends a new node to the innermost open element. -/
def append (b : Builder) (node : NodeId × Document) : Builder :=
  { b with document := node.2.link b.parent node.1 }

/-- Opens an element. -/
def enter (b : Builder) (tag : StartTag) : Builder :=
  let (id, d) := b.document.pushElement tag.name tag.ns tag.attributes
  let d := d.link b.parent id
  { document := if b.opened.isEmpty then { d with root := some id } else d
    opened := (id, tag.name) :: b.opened }

/-- Takes in one token. -/
def read (strict : Bool) (b : Builder) : Token → Except ShapeFault Builder
  | .startDocument .. => .error .innerDocumentStart
  | .startTag tag =>
    if b.opened.isEmpty && b.document.root.isSome then .error .severalRoots
    else
      match if strict then Attributes.firstRepeated? tag.attributes else none with
      | some name => .error (.duplicateAttribute name)
      | none => .ok (b.enter tag)
  | .endTag name =>
    match b.opened with
    | [] => .error (.strayEnd name)
    | (_, opened) :: rest =>
      if opened = name then .ok { b with opened := rest } else .error (.mismatchedEnd opened name)
  | .text content =>
    if b.opened.isEmpty then
      if strict && !content.toList.all isSpace then .error .textOutside else .ok b
    else .ok (b.append (b.document.pushText content))
  | .cdata content =>
    if b.opened.isEmpty then if strict then .error .cdataOutside else .ok b
    else .ok (b.append (b.document.pushCdata content))
  | .comment content => .ok (b.append (b.document.pushComment content))
  | .instruction target data => .ok (b.append (b.document.pushInstruction target data))
  | .doctype _ => .ok b
  | .endDocument => .ok b

/-- The document, if all elements are closed and there was one. -/
def finish (b : Builder) : Except ShapeFault Document :=
  match b.opened with
  | (_, name) :: _ => .error (.unclosed name)
  | [] => if b.document.root.isSome then .ok b.document else .error .noRoot

/-- Takes in tokens up to the document end. -/
def run (strict : Bool) (failure : Option TokenError) (b : Builder) :
    List Outcome → Except BuildError Document
  | [] =>
    match failure with
    | some e => .error (.source e)
    | none => b.finish.mapError .shape
  | .error e :: _ => .error (.source e)
  | .ok .endDocument :: _ => b.finish.mapError .shape
  | .ok token :: rest =>
    match b.read strict token with
    | .error fault => .error (.shape fault)
    | .ok b => run strict failure b rest

end Builder

namespace Document

/-- The document of a stream that opens with a document start. -/
def ofStream (strict : Bool) (s : TokenStream) : Except BuildError Document :=
  match s.next with
  | (.error e, _) => .error (.source e)
  | (.ok none, _) => .error (.shape .noTokens)
  | (.ok (some (.startDocument ..)), rest) => Builder.initial.run strict rest.failure rest.items
  | (.ok (some token), _) => .error (.shape (.noDocumentStart token))

/-- The document of a stream, which need not open with a document start. -/
def ofOpenedStream (strict : Bool) (s : TokenStream) : Except BuildError Document :=
  match s.opened with
  | .error e => .error (.source e)
  | .ok opened => ofStream strict opened.stream

/-- The document that bytes write. -/
def parse (bytes : List UInt8) (strict : Bool := false) (failure : Option String := none) :
    Except BuildError Document :=
  ofOpenedStream strict (.ofBytes bytes failure)

end Document

end PersistenceMapping

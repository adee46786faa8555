/-
The tokens of a document.

A document is read as a flat sequence of tokens.  An empty element is a start tag
followed by an end tag, so tags are the only brackets.  Attributes keep their order and
may repeat; an operation by name means the first of that name.
-/
import PersistenceMapping.Markup.Fault
import PersistenceMapping.Text.QName

namespace PersistenceMapping

/-- An attribute of a tag, with its value as it reads once references are resolved. -/
structure Attribute where
  name : String
  value : String
  deriving DecidableEq, Repr

namespace Attribute

/-- The name after its qualifier. -/
def localName (a : Attribute) : String :=
  QName.localName a.name

/-- The qualifier of the name, if it has one. -/
def qualifier? (a : Attribute) : Option String :=
  QName.qualifier? a.name

/-- Whether the attribute declares a namespace. -/
def declaresNamespace (a : Attribute) : Bool :=
  QName.declaresNamespace a.name

end Attribute

/-! ### Attribute lists -/

namespace Attributes

/-- The value of the first attribute of a name. -/
def get? (attributes : List Attribute) (name : String) : Option String :=
  (attributes.find? (·.name == name)).map (·.value)

/-- Gives the first attribute of a name another value, or appends one. -/
def set (name value : String) : List Attribute → List Attribute
  | [] => [⟨name, value⟩]
  | a :: rest => if a.name == name then ⟨a.name, value⟩ :: rest else a :: set name value rest

/-- The list without the first attribute of a name. -/
def remove (name : String) (attributes : List Attribute) : List Attribute :=
  attributes.eraseP (·.name == name)

/-- The list in which each declaration of a namespace declares the one that `replace` gives
for it, if it gives one. -/
def redeclare (replace : String → Option String) (attributes : List Attribute) : List Attribute :=
  attributes.map fun a =>
    if a.declaresNamespace then { a with value := (replace a.value).getD a.value } else a

end Attributes

/-- A start tag. -/
structure StartTag where
  name : String
  /-- The namespace that the qualifier of the name stands for. -/
  ns : Option String
  attributes : List Attribute
  deriving DecidableEq, Repr

namespace StartTag

/-- The name after its qualifier. -/
def localName (tag : StartTag) : String :=
  QName.localName tag.name

/-- The qualifier of the name, if it has one. -/
def qualifier? (tag : StartTag) : Option String :=
  QName.qualifier? tag.name

/-- The value of the first attribute of a name. -/
def get? (tag : StartTag) (name : String) : Option String :=
  Attributes.get? tag.attributes name

/-- Gives the first attribute of a name another value, or appends one. -/
def set (tag : StartTag) (name value : String) : StartTag :=
  { tag with attributes := Attributes.set name value tag.attributes }

/-- Appends an attribute, whether there is one of its name or not. -/
def add (tag : StartTag) (name value : String) : StartTag :=
  { tag with attributes := tag.attributes ++ [⟨name, value⟩] }

/-- Removes the first attribute of a name. -/
def remove (tag : StartTag) (name : String) : StartTag :=
  { tag with attributes := Attributes.remove name tag.attributes }

/-- Changes the local name and keeps the qualifier. -/
def withLocalName (tag : StartTag) (localName : String) : StartTag :=
  { tag with name := QName.withLocalName tag.name localName }

/-- Declares a default namespace where the tag has neither a qualifier nor a declaration. -/
def declareDefault (tag : StartTag) (ns : String) : StartTag :=
  if tag.qualifier?.isNone && (tag.get? "xmlns").isNone then tag.set "xmlns" ns else tag

end StartTag

/-- One token of a document. -/
inductive Token where
  | startDocument (version : String) (encoding : Option String) (standalone : Option Bool)
  | startTag (tag : StartTag)
  | endTag (name : String)
  | text (content : String)
  | cdata (content : String)
  | comment (content : String)
  | instruction (target data : String)
  | doctype (content : String)
  | endDocument
  deriving DecidableEq, Repr

namespace Token

/-- The start of a document that does not say anything else of itself. -/
def plainStart : Token :=
  .startDocument "1.0" (some "UTF-8") none

def isStartDocument : Token → Bool
  | startDocument .. => true
  | _ => false

def isStartTag : Token → Bool
  | startTag _ => true
  | _ => false

def isEndTag : Token → Bool
  | endTag _ => true
  | _ => false

/-- The start tag that a token is, if it is one. -/
def startTag? : Token → Option StartTag
  | startTag tag => some tag
  | _ => none

/-- The character data of text and CDATA sections. -/
def characters? : Token → Option String
  | text content => some content
  | cdata content => some content
  | _ => none

/-- Whether a token is text of nothing but spaces, or of nothing. -/
def isSpaceText : Token → Bool
  | text content => content.toList.all isSpace
  | _ => false

end Token

/-- Why a source gives no token. -/
inductive TokenError where
  | malformed (fault : Markup.Fault)
  | unreadable (reason : String)
  /-- The root declares a version that is not supported. -/
  | unsupportedVersion (version : String)
  deriving DecidableEq, Repr

/-- The text of an error. -/
def TokenError.message : TokenError → String
  | malformed fault => "malformed XML: " ++ fault.message
  | unreadable reason => "I/O error reading XML: " ++ reason
  | unsupportedVersion version => "unsupported orm.xml version: " ++ version

end PersistenceMapping

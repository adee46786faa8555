/-
Reading tokens from bytes.

A reader remembers the names of the open elements and the namespaces in scope; each
piece of the document gives it no, one or two tokens, or a failure.  It does not stop at
a failure unless markup is not closed: an end tag that fails closes the innermost element
all the same, and a start tag that fails opens one.

The document start is reported only where there is a declaration, the document end once,
as the last token of all.  A source that gives no byte before it fails has no end: it fails
for ever.
-/
import PersistenceMapping.Markup.Piece
import PersistenceMapping.Markup.Scope
import PersistenceMapping.Token.Stream

namespace PersistenceMapping

namespace Markup

/-- What a reader remembers of the pieces before. -/
structure Reader where
  /-- The names of the open elements, innermost first. -/
  opened : List RawText
  scope : Scope
  deriving Repr

/-- The failure that a fault is to a reader. -/
abbrev failed {α : Type} (fault : Fault) : Except TokenError α :=
  .error (.malformed fault)

/-- The text of a name or of markup that is not character data. -/
def decodeMarkup (t : RawText) : Except TokenError String :=
  match t.decode with
  | .ok s => .ok s
  | .error fault => failed (.undecodable fault)

/-- The text of character data or an attribute value, with its references resolved. -/
def decodeContent (t : RawText) : Except TokenError String :=
  match t.decode with
  | .error fault => failed (.undecodableContent fault)
  | .ok s =>
    match Reference.unescape s with
    | .ok s => .ok s
    | .error fault => failed (.reference fault)

/-! ### Tags -/

/-- The name of a tag, and the text in which its attributes stand. -/
def splitTag (content : RawText) : RawText × Located :=
  Located.span (fun s => !s.satisfies isSpace) ⟨0, content⟩

/-- Attributes with their names and values as text.  Of two faults the earlier attribute's
wins, and of one attribute's the value's. -/
def decodeAttributes : List RawAttribute → Except TokenError (List Attribute)
  | [] => .ok []
  | a :: rest => do
    let value ← decodeContent a.value
    let name ← decodeMarkup a.name
    let attributes ← decodeAttributes rest
    .ok (⟨name, value⟩ :: attributes)

/-- The namespace of a name, as text. -/
def resolveName (scope : Scope) (name : RawText) : Except TokenError (Option String) :=
  match scope.resolve name with
  | none => .ok none
  | some uri => (decodeMarkup uri).map some

/-- The start tag of some content, in the scope that its declarations give. -/
def readStartTag (scope : Scope) (content : RawText) : Except TokenError StartTag := do
  let (rawName, rest) := splitTag content
  let ns ← resolveName scope rawName
  let name ← decodeMarkup rawName
  let (raw, fault) := readAttributes true rest
  let attributes ← decodeAttributes raw
  match fault with
  | some fault => failed (.tagAttribute fault)
  | none => .ok { name, ns, attributes }

/-- The scope inside a tag, and what its declarations may not declare. -/
def enterTag (scope : Scope) (content : RawText) : Scope × Option Fault :=
  scope.enter (readAttributes false (splitTag content).2).1

/-- The name that an end tag closes.  Spaces behind it do not count, unless there is nothing
else. -/
def endTagName (content : RawText) : RawText :=
  let space := fun s : Symbol => s.satisfies isSpace
  if content.all space then content else (content.reverse.dropWhile space).reverse

/-! ### Declarations and instructions -/

/-- The value of the first attribute of a name in a declaration.  A fault counts only where
no attribute before it has the name. -/
def declaredValue (name : String) (attributes : List RawAttribute × Option AttributeFault) :
    Except TokenError (Option RawText) :=
  match attributes.1.find? (·.name == RawText.ofString name) with
  | some a => .ok (some a.value)
  | none =>
    match attributes.2 with
    | some fault => failed (.declarationAttribute fault)
    | none => .ok none

/-- The version of a declaration, which its first attribute has to give. -/
def declaredVersion (attributes : List RawAttribute × Option AttributeFault) :
    Except TokenError RawText :=
  match attributes with
  | (a :: _, _) =>
    if a.name = .ofString "version" then .ok a.value
    else
      match a.name.decode with
      | .ok found => failed (.versionNotFirst (some found))
      | .error fault => failed (.undecodableContent fault)
  | ([], some fault) => failed (.declarationAttribute fault)
  | ([], none) => failed (.versionNotFirst none)

/-- The document start that an XML declaration stands for, given what follows its first
three letters. -/
def readDeclaration (rest : RawText) : Except TokenError Token := do
  let attributes := readAttributes false ⟨3, rest⟩
  let rawVersion ← declaredVersion attributes
  let rawEncoding ← declaredValue "encoding" attributes
  let encoding ←
    match rawEncoding with
    | none => .ok none
    | some raw => (decodeMarkup raw).map some
  let standalone ← declaredValue "standalone" attributes
  let version ← decodeMarkup rawVersion
  .ok (.startDocument version encoding (standalone.map fun raw => raw = .ofString "yes"))

/-- The token of a processing instruction, or of an XML declaration. -/
def readInstruction (content : RawText) : Except TokenError Token :=
  let ordinary : Except TokenError Token := do
    let (rawTarget, rest) := splitTag content
    let target ← decodeMarkup rawTarget
    let data ← decodeMarkup rest.text
    .ok (.instruction target (trimStart data))
  match RawText.after? "xml".toList content with
  | some [] => readDeclaration []
  | some (s :: rest) => if s.satisfies isSpace then readDeclaration (s :: rest) else ordinary
  | none => ordinary

/-- The token of a document type declaration, given what follows its keyword. -/
def readDoctype (content : RawText) : Except TokenError Token :=
  match content.dropWhile (·.satisfies isSpace) with
  | [] => failed .missingDoctypeName
  | name => (decodeMarkup name).map .doctype

/-! ### Documents -/

namespace Reader

/-- A reader before its first piece. -/
def initial : Reader :=
  { opened := [], scope := .initial }

/-- The outcomes of one piece, and the reader after it. -/
def read (r : Reader) : Piece → List Outcome × Reader
  | .text content => ([(decodeContent content).map .text], r)
  | .cdata content => ([(decodeMarkup content).map .cdata], r)
  | .comment content => ([(decodeMarkup content).map .comment], r)
  | .doctype content => ([readDoctype content], r)
  | .instruction content => ([readInstruction content], r)
  | .startTag content =>
    let r' := { r with opened := (splitTag content).1 :: r.opened }
    match enterTag r.scope content with
    | (scope, some fault) => ([failed fault], { r' with scope })
    | (scope, none) => ([(readStartTag scope content).map .startTag], { r' with scope })
  | .emptyTag content =>
    match enterTag r.scope content with
    | (scope, some fault) => ([failed fault], { r with scope })
    | (scope, none) =>
      let r' := { r with scope := scope.leave }
      match readStartTag scope content with
      | .ok tag => ([.ok (.startTag tag), .ok (.endTag tag.name)], r')
      | .error e => ([.error e], r')
  | .endTag content =>
    let name := endTagName content
    match r.opened with
    | [] => ([failed (.unmatchedEnd name.decodeOrEmpty)], r)
    | expected :: opened =>
      if name = expected then
        let outcome : Outcome := do
          let _ ← resolveName r.scope name
          let decoded ← decodeMarkup name
          .ok (.endTag decoded)
        ([outcome], { opened, scope := r.scope.leave })
      else
        ([failed (.mismatchedEnd expected.decodeOrEmpty name.decodeOrEmpty)], { r with opened })

/-- The outcomes of reading a document to its end.  `failure` is why the source gives no
more bytes there, where that is not the end of the document: what is cut short then fails
for that reason and no other. -/
def readAll (failure : Option String) (r : Reader) (t : RawText) : List Outcome :=
  let broken (otherwise : List Outcome) : List Outcome :=
    match failure with
    | some reason => [.error (.unreadable reason), .ok .endDocument]
    | none => otherwise
  if ht : t = [] then broken [.ok .endDocument]
  else
    match h : cut t with
    | .refused construct => [failed (.unclosed construct), .ok .endDocument]
    | .unfinished construct => broken [failed (.unclosed construct), .ok .endDocument]
    | .piece piece rest =>
      have : rest.length < t.length := length_lt_of_cut ht h
      let (outcomes, r') := r.read piece
      let whole := outcomes ++ readAll failure r' rest
      match piece with
      | .text _ => if rest.isEmpty then broken whole else whole
      | _ => whole
termination_by t.length

end Reader

/-- A document without the byte order mark that it may start with. -/
def withoutByteOrderMark : RawText → RawText
  | .char '\uFEFF' :: rest => rest
  | t => t

end Markup

/-- The stream of a byte document.  A source that fails after these bytes gives its reason; one
that fails before its first byte was never begun, so every pull asks it again and fails. -/
def TokenStream.ofBytes (bytes : List UInt8) (failure : Option String := none) : TokenStream :=
  match bytes, failure with
  | [], some reason => { items := [], failure := some (.unreadable reason) }
  | _, _ =>
    { items :=
        Markup.Reader.readAll failure .initial (Markup.withoutByteOrderMark (.ofBytes bytes)) }

end PersistenceMapping

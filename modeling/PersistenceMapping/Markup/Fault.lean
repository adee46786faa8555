/-
What is wrong with markup.

Each way in which a byte document fails to be a sequence of tokens is a constructor of
`Fault`; the wording is in `Fault.message` alone.
-/
import PersistenceMapping.Text.Reference
import PersistenceMapping.Text.Symbol

namespace PersistenceMapping

namespace Markup

/-- The constructs that have a closing delimiter of their own. -/
inductive Construct where
  | tag
  | cdata
  | comment
  | doctype
  | instruction
  /-- What an exclamation mark opens when no known construct follows it. -/
  | unknown
  deriving DecidableEq, Repr

/-- What is reported of a construct that is not closed, or not opened as it should be. -/
def Construct.complaint : Construct → String
  | tag => "tag not closed: `>` not found before end of input"
  | cdata => "CDATA not closed: `]]>` not found before end of input"
  | comment => "comment not closed: `-->` not found before end of input"
  | doctype => "DOCTYPE not closed: `>` not found before end of input"
  | instruction =>
    "processing instruction or xml declaration not closed: `?>` not found before end of input"
  | unknown => "unknown or missed symbol in markup"

/-- What is wrong with an attribute of a tag.  Positions are byte offsets into the tag. -/
inductive AttributeFault where
  | missingEquals (position : Nat)
  | duplicate (position previous : Nat)
  | missingValue (position : Nat)
  | unquoted (position : Nat)
  | unclosedQuote (position : Nat) (quote : Char)
  deriving DecidableEq, Repr

/-- The text of a fault. -/
def AttributeFault.message : AttributeFault → String
  | missingEquals position =>
    s!"position {position}: attribute key must be directly followed by `=` or space"
  | duplicate position previous =>
    s!"position {position}: duplicated attribute, previous declaration at position {previous}"
  | missingValue position => s!"position {position}: `=` must be followed by an attribute value"
  | unquoted position =>
    s!"position {position}: attribute value must be enclosed in `\"` or `'`"
  | unclosedQuote position quote =>
    s!"position {position}: missing closing quote `{quote}` in attribute value"

/-- Why a byte document, or a piece of it, is no sequence of tokens. -/
inductive Fault where
  | unclosed (construct : Construct)
  | missingDoctypeName
  /-- The first attribute of an XML declaration is another one, or is missing. -/
  | versionNotFirst (found : Option String)
  | declarationAttribute (fault : AttributeFault)
  | tagAttribute (fault : AttributeFault)
  | mismatchedEnd (expected found : String)
  | unmatchedEnd (found : String)
  /-- A reserved prefix or namespace in a declaration, as it was written. -/
  | reservedBinding (qualifier uri : RawText)
  | reference (fault : Reference.Fault)
  /-- Character data or an attribute value that is no text. -/
  | undecodableContent (fault : Utf8.Fault)
  /-- Any other piece of markup that is no text. -/
  | undecodable (fault : Utf8.Fault)
  deriving DecidableEq, Repr

/-- A byte as it is shown between double quotes. -/
def showByte (b : UInt8) : String :=
  if b = 0x22 then "\\\""
  else if 0x20 ≤ b && b ≤ 0x7E then String.singleton (Char.ofNat b.toNat)
  else "0x" ++ String.ofList ((Nat.toDigits 16 b.toNat).map Char.toUpper)

/-- Undecoded text as it is shown in a message. -/
def showBytes (t : RawText) : String :=
  "\"" ++ String.join (t.bytes.map showByte) ++ "\""

/-- The text of a fault. -/
def Fault.message : Fault → String
  | unclosed construct => "syntax error: " ++ construct.complaint
  | missingDoctypeName =>
    "ill-formed document: `<!DOCTYPE>` declaration does not contain a name of a document type"
  | versionNotFirst none =>
    "ill-formed document: an XML declaration does not contain `version` attribute"
  | versionNotFirst (some found) =>
    "ill-formed document: an XML declaration must start with `version` attribute, "
      ++ "but in starts with `" ++ found ++ "`"
  | declarationAttribute fault => "error while parsing attribute: " ++ fault.message
  | tagAttribute fault => fault.message
  | mismatchedEnd expected found =>
    s!"ill-formed document: expected `</{expected}>`, but `</{found}>` was found"
  | unmatchedEnd found =>
    s!"ill-formed document: close tag `</{found}>` does not match any open tag"
  | reservedBinding qualifier uri =>
    "The namespace prefix '" ++ showBytes qualifier ++ "' cannot be bound to '" ++ showBytes uri
      ++ "'"
  | reference fault => fault.message
  | undecodableContent fault => "Malformed UTF-8 input: " ++ fault.message
  | undecodable fault => "invalid UTF-8: " ++ fault.message

end Markup

end PersistenceMapping

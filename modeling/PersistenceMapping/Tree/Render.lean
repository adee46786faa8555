/-
Writing a document.

A document is written as a sequence of marks, one for every tag, text or other construct
(`Content.marks`), and a mark is written the same way wherever it stands (`Mark.write`).
Indentation adds line breaks between marks and nothing inside them: before a mark that is
not character data, unless character data stands right before it.  Text of nothing but
blanks is left out where line breaks replace it.
-/
import PersistenceMapping.Text.Reference
import PersistenceMapping.Tree.Content

namespace PersistenceMapping

/-- One construct of a written document. -/
inductive Mark where
  | declaration
  | opening (name : String) (attributes : List Attribute)
  | closing (name : String)
  | empty (name : String) (attributes : List Attribute)
  | text (content : String)
  | cdata (content : String)
  | comment (content : String)
  | instruction (target data : String)
  deriving DecidableEq, Repr

namespace Mark

/-- An attribute as it is written in a tag. -/
def attributeText (a : Attribute) : String :=
  " " ++ a.name ++ "=\"" ++ Reference.escape a.value ++ "\""

/-- What stands inside the tag of an element. -/
def tagText (name : String) (attributes : List Attribute) : String :=
  name ++ String.join (attributes.map attributeText)

/-- A mark as it is written. -/
def write : Mark → String
  | declaration => "<?xml version=\"1.0\" encoding=\"UTF-8\"?>"
  | opening name attributes => "<" ++ tagText name attributes ++ ">"
  | closing name => "</" ++ name ++ ">"
  | empty name attributes => "<" ++ tagText name attributes ++ "/>"
  | text content => Reference.escape content
  | cdata content => "<![CDATA[" ++ content ++ "]]>"
  | comment content => "<!--" ++ content ++ "-->"
  | instruction target data =>
    if data.isEmpty then "<?" ++ target ++ "?>" else "<?" ++ target ++ " " ++ data ++ "?>"

/-- Whether a mark is character data, beside which no line is broken. -/
def isCharacters : Mark → Bool
  | text _ => true
  | cdata _ => true
  | _ => false

/-- Whether what comes after a mark is one level deeper. -/
def opens : Mark → Bool
  | opening .. => true
  | _ => false

/-- Whether a mark itself is one level less deep. -/
def closes : Mark → Bool
  | closing _ => true
  | _ => false

end Mark

mutual

/-- The marks of a content.  `blanks` tells whether texts of nothing but blanks are among
them. -/
def Content.marks (blanks : Bool) : Content → List Mark
  | .document _ => []
  | .element name _ attributes [] => [.empty name attributes]
  | .element name _ attributes (c :: rest) =>
    .opening name attributes :: (Content.marksAll blanks (c :: rest) ++ [.closing name])
  | .text content => if !blanks && isBlankText content then [] else [.text content]
  | .cdata content => [.cdata content]
  | .comment content => [.comment content]
  | .instruction target data => [.instruction target data]

/-- The marks of contents that follow each other. -/
def Content.marksAll (blanks : Bool) : List Content → List Mark
  | [] => []
  | c :: rest => Content.marks blanks c ++ Content.marksAll blanks rest

end

/-- The line break before a mark, at a depth given in spaces. -/
def lineBreak (spaces : Nat) : String :=
  "\n" ++ String.ofList (List.replicate spaces ' ')

/-- The texts of marks, each after its line break if it has one.  `depth` elements are open,
and `inline` holds where no line may be broken. -/
def layOut (indent depth : Nat) (inline : Bool) : List Mark → List String
  | [] => []
  | m :: rest =>
    let own := if m.closes then depth - 1 else depth
    let next := if m.opens then depth + 1 else own
    let before := if inline || m.isCharacters then "" else lineBreak (indent * own)
    before :: m.write :: layOut indent next m.isCharacters rest

/-- Marks as they are written with a number of spaces a level; with none, all on one line. -/
def writeMarks (indent : Nat) (marks : List Mark) : String :=
  if indent = 0 then String.join (marks.map Mark.write)
  else String.join (layOut indent 0 true marks)

namespace Document

/-- The marks of a document. -/
def marks (d : Document) (indent : Nat) : List Mark :=
  .declaration :: Content.marksAll (indent = 0) d.body

/-- A document as it is written. -/
def render (d : Document) (indent : Nat := 0) : String :=
  writeMarks indent (d.marks indent)

/-- The bytes of a document as it is written. -/
def bytes (d : Document) (indent : Nat := 0) : List UInt8 :=
  (d.render indent).toUTF8.toList

end Document

end PersistenceMapping

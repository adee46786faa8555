/-
The attributes of a start tag as they are written.

A reader resolves references in the value of an attribute, but not in what it binds a prefix to.  So
the namespace of a start tag is told from what is written for the attributes of the tags that are
open, whatever references there are (`IsWrittenIn`).  Each piece that opens an element gives one
start tag, and the pieces and the start tags of a document have the same numbers
(`Reader.ReadsAll.asWritten`).
-/
import PersistenceMapping.Proofs.Markup.Faultless

namespace PersistenceMapping

namespace Markup

open RawText (ofString)

/-- A raw attribute with its value as it is written. -/
def RawAttribute.asWritten (raw : RawAttribute) : Attribute :=
  ⟨raw.name.decodeOrEmpty, raw.value.decodeOrEmpty⟩

/-- The attributes that are written in a piece that opens an element. -/
def Piece.asWritten? : Piece → Option (List Attribute)
  | startTag content | emptyTag content =>
    some ((readAttributes false (splitTag content).2).1.map RawAttribute.asWritten)
  | _ => none

/-- The attributes that are written in the pieces of a document that open elements, by the numbers of
these pieces. -/
def attributesAsWritten (bytes : List UInt8) (i : Nat) : List Attribute :=
  ((pieces (withoutByteOrderMark (.ofBytes bytes))).filterMap Piece.asWritten?)[i]?.getD []

/-- A value as it is written, and what is read of it. -/
def IsWrittenFor (written value : String) : Prop :=
  Reference.unescape written = .ok value

/-- An attribute as it is written, and what is read of it. -/
def Unescapes (written a : Attribute) : Prop :=
  written.name = a.name ∧ IsWrittenFor written.value a.value

theorem decodeOrEmpty_ofString (s : String) : (ofString s).decodeOrEmpty = s := by
  rw [RawText.decodeOrEmpty, RawText.decode_ofString]

theorem Decodes.asWritten {raw : RawAttribute} {a : Attribute} (h : Decodes raw a) :
    Binds raw raw.asWritten ∧ Unescapes raw.asWritten a := by
  obtain ⟨written, hvalue, hunescape⟩ := unescape_of_decodeContent h.2
  rw [RawAttribute.asWritten, h.1, hvalue, decodeOrEmpty_ofString, decodeOrEmpty_ofString]
  exact ⟨⟨h.1, fun _ => hvalue⟩, rfl, hunescape⟩

theorem asWritten_of_decodes {raw : List RawAttribute} {attributes : List Attribute}
    (h : List.Forall₂ Decodes raw attributes) :
    List.Forall₂ Binds raw (raw.map RawAttribute.asWritten) ∧
      List.Forall₂ Unescapes (raw.map RawAttribute.asWritten) attributes := by
  induction h with
  | nil => exact ⟨.nil, .nil⟩
  | cons hr _ ih => exact ⟨.cons hr.asWritten.1 ih.1, .cons hr.asWritten.2 ih.2⟩

/-- Start tags that are open, each with what is written for its attributes by its number.  The
innermost is in the namespace that what is written declares. -/
structure IsWrittenIn (written : Nat → List Attribute) (opened : List (Nat × StartTag)) : Prop where
  unescapes : ∀ o ∈ opened, List.Forall₂ Unescapes (written o.1) o.2.attributes
  resolved : ∀ o ∈ opened.head?,
    o.2.ns = namespaceFor? (opened.map (written ·.1)) o.2.qualifier?

namespace Reader

open Token (Openings AtStartTags)

variable {r r' : Reader} {piece : Piece} {pieces : List Piece} {tokens : List Token}
  {written : Nat → List Attribute} {o : Openings}

/-- A reader behind start tags that are open, of which it keeps what is written. -/
structure Keeps (written : Nat → List Attribute) (r : Reader) (o : Openings) : Prop where
  follows : r.Follows (o.tags.map (written ·.1))
  unescapes : ∀ tag ∈ o.tags, List.Forall₂ Unescapes (written tag.1) tag.2.attributes

theorem keeps_initial (written : Nat → List Attribute) : Reader.initial.Keeps written {} :=
  ⟨follows_initial, nofun⟩

/-- A tag is read in the namespace that is written, and then what is written in it is kept. -/
theorem Keeps.enter {content : RawText} {scope : Scope} {tag : StartTag} (h : r.Keeps written o)
    (henter : enterTag r.scope content = (scope, none))
    (htag : readStartTag scope content = .ok tag)
    (hwritten : written o.count =
      (readAttributes false (splitTag content).2).1.map RawAttribute.asWritten) :
    IsWrittenIn written ((o.count, tag) :: o.tags) ∧
      scope = .of (((o.count, tag) :: o.tags).map (written ·.1)) := by
  obtain ⟨-, -, -, raw, hraw, hdecodes⟩ := readStartTag_eq_ok htag
  rw [hraw] at hwritten
  obtain ⟨hbinds, hunescapes⟩ := asWritten_of_decodes hdecodes
  rw [← hwritten] at hbinds hunescapes
  rw [h.follows.scope] at henter
  obtain ⟨rfl, -, hns⟩ := follows_of_enter henter htag (by rwa [hraw])
  refine ⟨⟨List.forall_mem_cons.mpr ⟨hunescapes, h.unescapes⟩, ?_⟩, rfl⟩
  rintro _ ⟨⟩
  exact hns

theorem Keeps.leave (h : r.Keeps written o) {expected : RawText} {above : List RawText}
    (hopened : r.opened = expected :: above) :
    Keeps written { opened := above, scope := r.scope.leave } { o with tags := o.tags.tail } := by
  have hlength := h.follows.length
  obtain ⟨count, tags⟩ := o
  rw [hopened] at hlength
  cases tags with
  | nil => cases hlength
  | cons tag tags =>
      refine ⟨⟨Nat.succ.inj hlength, ?_⟩, fun tag' htag' => ?_⟩
      · show r.scope.leave = .of (tags.map (written ·.1))
        rw [h.follows.scope]
        exact Scope.leave_of _ _
      · exact h.unescapes tag' (List.mem_cons_of_mem _ htag')

/-- A piece that opens an element gives one start tag, and other pieces give none. -/
theorem Gives.asWritten (h : r.Gives piece tokens r') (hr : r.Keeps written o)
    (hwritten : ∀ attributes ∈ piece.asWritten?, written o.count = attributes) :
    AtStartTags (IsWrittenIn written) o tokens ∧
      r'.Keeps written (tokens.foldl (fun o token => token.openings o) o) ∧
      (tokens.foldl (fun o token => token.openings o) o).count =
        o.count + piece.asWritten?.toList.length := by
  cases h with
  | startTag henter htag =>
      obtain ⟨hin, rfl⟩ := hr.enter henter htag (hwritten _ rfl)
      exact ⟨⟨fun _ => hin, trivial⟩, ⟨⟨congrArg (· + 1) hr.follows.length, rfl⟩, hin.unescapes⟩, rfl⟩
  | emptyTag henter htag =>
      obtain ⟨hin, rfl⟩ := hr.enter henter htag (hwritten _ rfl)
      refine ⟨⟨fun _ => hin, nofun, trivial⟩, ⟨⟨hr.follows.length, ?_⟩, hr.unescapes⟩, rfl⟩
      exact Scope.leave_of _ _
  | endTag hopened => exact ⟨⟨nofun, trivial⟩, hr.leave hopened, rfl⟩
  | instruction h =>
      rcases readInstruction_eq_ok h with ⟨_, _, _, rfl⟩ | ⟨_, _, rfl, -⟩ <;>
        exact ⟨⟨nofun, trivial⟩, hr, rfl⟩
  | _ => exact ⟨⟨nofun, trivial⟩, hr, rfl⟩

/-- The start tags of a document are in the namespaces that are written in its pieces, where those
of the same number are for each other. -/
theorem ReadsAll.asWritten (h : r.ReadsAll pieces tokens) (hr : r.Keeps written o)
    (hwritten : ∀ i attributes, (pieces.filterMap Piece.asWritten?)[i]? = some attributes →
      written (o.count + i) = attributes) : AtStartTags (IsWrittenIn written) o tokens := by
  induction h generalizing o with
  | nil => trivial
  | @cons r r' piece pieces tokens more hgives _ ih =>
      have hhead : ∀ attributes ∈ piece.asWritten?, written o.count = attributes := by
        intro attributes h
        refine hwritten 0 attributes ?_
        rw [List.filterMap_cons_some h]
        rfl
      obtain ⟨hat, hr', hcount⟩ := hgives.asWritten hr hhead
      refine Token.atStartTags_append.mpr ⟨hat, ih hr' fun i attributes h => ?_⟩
      rw [hcount, Nat.add_assoc]
      refine hwritten _ attributes ?_
      rw [← List.singleton_append, List.filterMap_append]
      have hsingle : [piece].filterMap Piece.asWritten? = piece.asWritten?.toList := by
        cases hnone : piece.asWritten? <;> simp [hnone]
      rw [hsingle, List.getElem?_append_right (Nat.le_add_right _ _), Nat.add_sub_cancel_left]
      exact h

end Reader

end Markup

end PersistenceMapping

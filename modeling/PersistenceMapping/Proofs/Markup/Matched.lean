/-
The tags of a byte document.

A reader remembers the names of the open elements as they were written, and an end tag that it gives
is written with the innermost of them.  A name that is given is the text that was written, so the
names that are remembered are the names of the start tags that have been given
(`Reader.matched_of_read`).

What comes before the first failure is what pieces give, one after the other: of each piece a few
tokens (`Reader.ReadsEach`).  So the tags of a document match up to there
(`Reader.matched_readAll`), and the document end is the last of its tokens if it does not fail
(`Reader.run_go_readAll`).
-/
import PersistenceMapping.Proofs.Markup.Faultless
import PersistenceMapping.Proofs.Token.Matched

namespace PersistenceMapping

namespace Markup

open RawText (ofString)

namespace Reader

variable {r r' : Reader} {piece : Piece} {tokens : List Token} {names : List String}
  {failure : Option String}

/-! ### One piece -/

/-- An end tag is given the name of the innermost element. -/
theorem ofString_of_read_endTag {content expected : RawText} {above : List RawText} {name : String}
    (hopened : r.opened = expected :: above)
    (h : r.read (.endTag content) = ([.ok (.endTag name)], r')) : expected = ofString name := by
  simp only [read, hopened] at h
  by_cases hname : endTagName content = expected
  · rw [if_pos hname] at h
    obtain ⟨houtcome, -⟩ := Prod.mk.inj h
    obtain ⟨-, -, hdecoded⟩ := exists_of_bind_eq_ok (List.cons.inj houtcome).1
    obtain ⟨decoded, hdecode, htoken⟩ := exists_of_bind_eq_ok hdecoded
    cases htoken
    rw [← hname, eq_of_decodeMarkup hdecode]
  · rw [if_neg hname] at h
    cases (List.cons.inj (Prod.mk.inj h).1).1

/-- The tags that a piece gives match, and the reader remembers the names that are open behind
them. -/
theorem matched_of_read (h : r.read piece = (tokens.map .ok, r'))
    (hr : r.opened = names.map ofString) :
    ∃ names', r'.opened = names'.map ofString ∧
      ∀ items, Matched names' items → Matched names (tokens.map .ok ++ items) := by
  cases gives_of_read h with
  | instruction hread =>
      refine ⟨names, hr, fun items hitems => ?_⟩
      rcases readInstruction_eq_ok hread with ⟨_, _, _, rfl⟩ | ⟨_, _, rfl, -⟩ <;>
        exact .cons nofun hitems
  | @startTag content scope tag henter htag =>
      refine ⟨tag.name :: names, ?_, fun items hitems => .cons nofun hitems⟩
      rw [(readStartTag_eq_ok htag).1, hr, List.map_cons]
  | @emptyTag content scope tag henter htag =>
      refine ⟨names, hr, fun items hitems => .cons nofun (.cons ?_ hitems)⟩
      rintro _ ⟨⟩
      rfl
  | @endTag content expected above name hopened =>
      have hname := ofString_of_read_endTag hopened h
      rw [hopened, hname] at hr
      cases names with
      | nil => cases hr
      | cons inner names =>
          obtain ⟨hinner, habove⟩ := List.cons.inj hr
          refine ⟨names, habove, fun items hitems => .cons ?_ hitems⟩
          rintro _ ⟨⟩
          rw [List.head?_cons, RawText.ofString_injective hinner]
  | _ => exact ⟨names, hr, fun items hitems => .cons nofun hitems⟩

/-! ### One piece after the other -/

namespace ReadsEach

variable {pieces : List Piece} {groups : List (List Token)}

theorem matched (h : r.ReadsEach pieces groups) (hr : r.opened = names.map ofString)
    {rest : List Outcome} (hrest : ∀ names', Matched names' rest) :
    Matched names (groups.flatten.map .ok ++ rest) := by
  induction h generalizing names with
  | nil => exact hrest names
  | cons hread _ ih =>
      obtain ⟨names', hr', hbefore⟩ := matched_of_read hread hr
      rw [List.flatten_cons, List.map_append, List.append_assoc]
      exact hbefore _ (ih hr')

/-- The tag of an empty element gives the start of the element and its end. -/
theorem empty (h : r.ReadsEach pieces groups) :
    List.Forall₂ (fun piece group => ∀ content, piece = Piece.emptyTag content →
      ∃ tag : StartTag, group = [.startTag tag, .endTag tag.name]) pieces groups := by
  induction h with
  | nil => exact .nil
  | cons hread _ ih =>
      refine .cons ?_ ih
      rintro content rfl
      cases gives_of_read hread with
      | @emptyTag _ _ tag => exact ⟨tag, rfl⟩

end ReadsEach

/-! ### Documents -/

/-- The tags of a document match up to its first failure. -/
theorem matched_readAll (failure : Option String) (hr : r.opened = names.map ofString)
    (t : RawText) : Matched names (readAll failure r t) := by
  obtain ⟨read, groups, rest, -, hreads, hall, hrest⟩ := readsEach_or_fails failure r t
  rw [hall]
  refine hreads.matched hr fun names' => ?_
  rcases hrest with ⟨-, rfl⟩ | ⟨e, more, rfl⟩
  · exact .cons nofun .nil
  · exact .failed

end Reader

end Markup

/-- The tags of a byte document match up to its first failure. -/
theorem matched_ofBytes (bytes : List UInt8) (failure : Option String) :
    Matched [] (TokenStream.ofBytes bytes failure).items := by
  unfold TokenStream.ofBytes
  split
  · exact .nil
  · exact Markup.Reader.matched_readAll failure rfl _

/-- The tokens of a byte document are those of its pieces, up to the first that fails, and then the
document end if none does. -/
theorem TokenStream.run_ofBytes (bytes : List UInt8) (failure : Option String) :
    let s := ofBytes bytes failure
    ∃ read groups, read <+: Markup.pieces (Markup.withoutByteOrderMark (.ofBytes bytes)) ∧
      Markup.Reader.initial.ReadsEach read groups ∧
      (s.run = (groups.flatten ++ [.endDocument], none) ∧
          read = Markup.pieces (Markup.withoutByteOrderMark (.ofBytes bytes)) ∨
        ∃ e, s.run = (groups.flatten, some e)) := by
  unfold ofBytes
  split
  · exact ⟨[], [], List.nil_prefix, .nil, Or.inr ⟨_, rfl⟩⟩
  · obtain ⟨read, groups, rest, hprefix, hreads, hall, hrest⟩ :=
      Markup.Reader.readsEach_or_fails failure .initial
        (Markup.withoutByteOrderMark (.ofBytes bytes))
    refine ⟨read, groups, hprefix, hreads, ?_⟩
    rw [run, hall, run_go_append]
    rcases hrest with ⟨hwhole, rfl⟩ | ⟨e, more, rfl⟩
    · exact Or.inl ⟨rfl, hwhole⟩
    · exact Or.inr ⟨e, by simp [run.go]⟩

end PersistenceMapping

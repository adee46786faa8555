/-
Two streams of one document in two layouts.

A layout puts blanks between marks.  So where a document is read in two layouts, the streams differ
in texts of nothing but blanks; how far that matters depends on where the texts stand.  Two
sequences of outcomes are relaid (`Relaid`) if they differ so, and if the character data that stands
directly in an element that carries any is the same in both but for blanks at its ends.

Finding the root and bringing a document to its current shape do not look at text, so they take
relaid sequences to relaid sequences (`Relaid.seekStart`, `Relaid.normalizeItems`).
-/
import PersistenceMapping.Binder

namespace PersistenceMapping

/-- Whether a token is neither a tag nor character data. -/
def Token.isAside : Token → Bool
  | startTag _ => false
  | endTag _ => false
  | text _ => false
  | cdata _ => false
  | _ => true

/-- Outcomes that differ in blank texts only.  `texts` holds, for each open element and innermost
first, the character data that has stood directly in it so far, in the one layout and in the other.
An element that carries text, going by its end tag, has had the same of it, but for blanks at the
ends. -/
inductive Relaid (carries : String → Bool) :
    (texts : List (String × String)) → (items items' : List Outcome) → Prop
  | nil {texts : List (String × String)} : Relaid carries texts [] []
  | blank {content text text' : String} {texts : List (String × String)}
      {items items' : List Outcome} (hblank : isBlankText content = true)
      (h : Relaid carries ((text ++ content, text') :: texts) items items') :
      Relaid carries ((text, text') :: texts) (.ok (.text content) :: items) items'
  | blank' {content text text' : String} {texts : List (String × String)}
      {items items' : List Outcome} (hblank : isBlankText content = true)
      (h : Relaid carries ((text, text' ++ content) :: texts) items items') :
      Relaid carries ((text, text') :: texts) items (.ok (.text content) :: items')
  | characters {token : Token} {content text text' : String} {texts : List (String × String)}
      {items items' : List Outcome} (htoken : token.characters? = some content)
      (h : Relaid carries ((text ++ content, text' ++ content) :: texts) items items') :
      Relaid carries ((text, text') :: texts) (.ok token :: items) (.ok token :: items')
  | start {tag : StartTag} {texts : List (String × String)} {items items' : List Outcome}
      (h : Relaid carries (("", "") :: texts) items items') :
      Relaid carries texts (.ok (.startTag tag) :: items) (.ok (.startTag tag) :: items')
  | stop {name text text' : String} {texts : List (String × String)} {items items' : List Outcome}
      (hsame : carries name = true → trim text = trim text')
      (h : Relaid carries texts items items') :
      Relaid carries ((text, text') :: texts) (.ok (.endTag name) :: items)
        (.ok (.endTag name) :: items')
  | aside {token : Token} {texts : List (String × String)} {items items' : List Outcome}
      (htoken : token.isAside = true) (h : Relaid carries texts items items') :
      Relaid carries texts (.ok token :: items) (.ok token :: items')

namespace Relaid

variable {carries : String → Bool} {texts : List (String × String)} {items items' : List Outcome}

/-- What stands before the first start tag is passed over in both, and either there is a start tag
in both or there is none in either. -/
theorem seekStart (h : Relaid carries texts items items') (failure : Option TokenError) :
    (∃ fault, TokenStream.seekStart failure items = .error fault ∧
      TokenStream.seekStart failure items' = .error fault) ∨
    ∃ tag rest rest' texts', TokenStream.seekStart failure items = .ok (tag, rest) ∧
      TokenStream.seekStart failure items' = .ok (tag, rest') ∧
      Relaid carries texts' rest rest' := by
  induction h with
  | nil => cases failure <;> exact .inl ⟨_, rfl, rfl⟩
  | blank hblank h ih => exact ih
  | blank' hblank h ih => exact ih
  | @characters token _ _ _ _ _ _ htoken h ih =>
      cases token with
      | text content => exact ih
      | cdata content => exact ih
      | _ => cases htoken
  | @start tag texts _ _ h ih => exact .inr ⟨tag, _, _, texts, rfl, rfl, start h⟩
  | stop hsame h ih => exact ih
  | @aside token _ _ _ htoken h ih =>
      cases token with
      | startTag tag => cases htoken
      | _ => exact ih

open Dialect.Hierarchical in
/-- Tags get their current names in both, and nothing happens to text. -/
theorem normalizeItems (h : Relaid (fun name => carries (renamed name)) texts items items')
    (isRoot : Bool) :
    Relaid carries texts (normalizeItems isRoot items) (normalizeItems isRoot items') := by
  induction h generalizing isRoot with
  | nil => exact nil
  | blank hblank h ih => exact blank hblank (ih isRoot)
  | blank' hblank h ih => exact blank' hblank (ih isRoot)
  | @characters token _ _ _ _ _ _ htoken h ih =>
      cases token with
      | text content => exact characters htoken (ih isRoot)
      | cdata content => exact characters htoken (ih isRoot)
      | _ => cases htoken
  | start h ih => exact start (ih false)
  | stop hsame h ih => exact stop hsame (ih isRoot)
  | @aside token _ _ _ htoken h ih =>
      cases token with
      | doctype content => exact ih isRoot
      | startDocument version encoding standalone => exact aside htoken (ih isRoot)
      | comment content => exact aside htoken (ih isRoot)
      | instruction target data => exact aside htoken (ih isRoot)
      | endDocument => exact aside htoken (ih isRoot)
      | _ => cases htoken

end Relaid

end PersistenceMapping

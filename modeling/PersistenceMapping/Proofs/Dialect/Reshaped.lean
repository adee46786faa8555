/-
Tags in current shape.

Both dialects go about start tags in the same way.  A namespace that is outdated is replaced by the
canonical one, in the tag and in what it declares (`Replaces`), and a root without a qualifier
declares the canonical one if it declares no default (`StartTag.declareDefault_cases`).

To either dialect a token stays what it is: text stays as it is, and a tag gets a name that depends
on nothing but the name that it had (`Token.Reshaped`).  Start and end tags are renamed alike then,
so those that match still match (`Nests.reshaped`).
-/
import Mathlib.Data.List.Forall2
import PersistenceMapping.Proofs.Schema.Language
import PersistenceMapping.Proofs.Tree.Nesting
import PersistenceMapping.Proofs.Tree.Repeated

namespace PersistenceMapping

/-! ### Namespaces that are replaced -/

/-- How a dialect replaces namespaces: outdated ones by the canonical one, and no others. -/
structure Replaces (replace : String → Option String) (outdated : List String)
    (canonical : String) : Prop where
  eq : ∀ ns, replace ns = if ns ∈ outdated then some canonical else none
  canonical : canonical ∉ outdated

/-- A start tag that is in a namespace, where no namespace is outdated, be it its own or one that it
declares. -/
structure StartTag.IsFreeOf (outdated : List String) (tag : StartTag) : Prop where
  ns : ∃ ns, tag.ns = some ns ∧ ns ∉ outdated
  declarations : ∀ a ∈ tag.attributes, a.declaresNamespace = true → a.value ∉ outdated

namespace Attributes

variable {replace : String → Option String} {attributes : List Attribute}

theorem redeclare_cons (a : Attribute) (attributes : List Attribute) :
    redeclare replace (a :: attributes) =
      (if a.declaresNamespace then { a with value := (replace a.value).getD a.value } else a) ::
        redeclare replace attributes :=
  rfl

theorem names_redeclare (replace : String → Option String) (attributes : List Attribute) :
    (redeclare replace attributes).map (·.name) = attributes.map (·.name) := by
  induction attributes with
  | nil => rfl
  | cons a attributes ih =>
      rw [redeclare_cons, List.map_cons, List.map_cons, ih]
      split <;> rfl

/-- Attributes that declare nothing are left as they are. -/
theorem filter_redeclare (replace : String → Option String) (attributes : List Attribute)
    {keeps : Attribute → Bool} (h : ∀ a, a.declaresNamespace = true → keeps a = false) :
    (redeclare replace attributes).filter keeps = attributes.filter keeps := by
  have hnot : ∀ a : Attribute, a.declaresNamespace = true → ¬keeps a = true :=
    fun a ha => Bool.eq_false_iff.mp (h a ha)
  induction attributes with
  | nil => rfl
  | cons a attributes ih =>
      rw [redeclare_cons]
      by_cases hdeclares : a.declaresNamespace = true
      · have hnew : ¬keeps { a with value := (replace a.value).getD a.value } = true :=
          hnot _ hdeclares
        rw [if_pos hdeclares, List.filter_cons_of_neg hnew,
          List.filter_cons_of_neg (hnot a hdeclares), ih]
      · rw [if_neg hdeclares, List.filter_cons, List.filter_cons, ih]

end Attributes

namespace Replaces

variable {replace : String → Option String} {outdated : List String} {canonical : String}
  {attributes : List Attribute}

theorem getD_not_mem (h : Replaces replace outdated canonical) (ns : String) :
    (replace ns).getD ns ∉ outdated := by
  rw [h.eq]
  by_cases hns : ns ∈ outdated
  · rw [if_pos hns]
    exact h.canonical
  · rw [if_neg hns]
    exact hns

theorem getD_of_not_mem (h : Replaces replace outdated canonical) {ns : String}
    (hns : ns ∉ outdated) : (replace ns).getD ns = ns := by
  rw [h.eq, if_neg hns]
  rfl

theorem declarations_redeclare (h : Replaces replace outdated canonical) :
    ∀ a ∈ Attributes.redeclare replace attributes, a.declaresNamespace = true →
      a.value ∉ outdated := by
  intro a' ha' hdeclares
  obtain ⟨a, -, rfl⟩ := List.mem_map.mp ha'
  by_cases hdeclares' : a.declaresNamespace = true
  · rw [if_pos hdeclares']
    exact h.getD_not_mem a.value
  · rw [if_neg hdeclares'] at hdeclares
    exact absurd hdeclares hdeclares'

theorem redeclare_eq_self (h : Replaces replace outdated canonical)
    (hfree : ∀ a ∈ attributes, a.declaresNamespace = true → a.value ∉ outdated) :
    Attributes.redeclare replace attributes = attributes := by
  refine (List.map_congr_left fun a ha => ?_).trans (List.map_id attributes)
  by_cases hdeclares : a.declaresNamespace = true
  · rw [if_pos hdeclares, h.getD_of_not_mem (hfree a ha hdeclares)]
    rfl
  · rw [if_neg hdeclares]
    rfl

end Replaces

/-! ### Default namespaces -/

namespace StartTag

/-- A tag is left as it is, or gets a declaration of the default namespace that it did not have. -/
theorem declareDefault_cases (tag : StartTag) (ns : String) :
    tag.declareDefault ns = tag ∧
        (tag.qualifier? = none → ∃ a ∈ tag.attributes, a.name = "xmlns") ∨
      tag.declareDefault ns = { tag with attributes := tag.attributes ++ [⟨"xmlns", ns⟩] } ∧
        ∀ a ∈ tag.attributes, a.name ≠ "xmlns" := by
  unfold declareDefault
  by_cases hadded : (tag.qualifier?.isNone && (tag.get? "xmlns").isNone) = true
  · rw [if_pos hadded]
    simp only [Bool.and_eq_true, Option.isNone_iff_eq_none] at hadded
    have hnot := Attributes.get?_eq_none_iff.mp hadded.2
    have hnew : "xmlns" ∉ tag.attributes.map (·.name) := by
      intro hmem
      obtain ⟨a, ha, hname⟩ := List.mem_map.mp hmem
      exact hnot a ha hname
    exact Or.inr ⟨by rw [StartTag.set, Attributes.set_eq_append hnew], hnot⟩
  · rw [if_neg hadded]
    refine Or.inl ⟨rfl, fun hqualifier => ?_⟩
    by_contra hnone
    simp only [not_exists, not_and] at hnone
    refine hadded ?_
    simp only [Bool.and_eq_true, Option.isNone_iff_eq_none]
    exact ⟨hqualifier, Attributes.get?_eq_none_iff.mpr hnone⟩

theorem name_declareDefault (tag : StartTag) (ns : String) :
    (tag.declareDefault ns).name = tag.name := by
  unfold declareDefault
  split <;> rfl

theorem ns_declareDefault (tag : StartTag) (ns : String) :
    (tag.declareDefault ns).ns = tag.ns := by
  unfold declareDefault
  split <;> rfl

/-- Where the default namespace is declared, or is not the one of the tag, nothing is added. -/
theorem declareDefault_eq_self {tag : StartTag} {ns : String}
    (h : tag.qualifier? = none → ∃ a ∈ tag.attributes, a.name = "xmlns") :
    tag.declareDefault ns = tag := by
  unfold declareDefault
  rw [if_neg]
  intro hadded
  simp only [Bool.and_eq_true, Option.isNone_iff_eq_none] at hadded
  obtain ⟨a, ha, hname⟩ := h hadded.1
  exact Attributes.get?_eq_none_iff.mp hadded.2 a ha hname

end StartTag

/-! ### Tokens that stay what they are -/

namespace Token

/-- A token and what becomes of it: a tag gets the name that `rename` gives for its name, a start tag
keeps the attributes that `keeps` tells, and other tokens stay as they are. -/
inductive Reshaped (rename : String → String) (keeps : Attribute → Bool) : Token → Token → Prop
  | startTag {tag tag' : StartTag} (hname : tag'.name = rename tag.name)
      (hkept : tag'.attributes.filter keeps = tag.attributes.filter keeps) :
      Reshaped rename keeps (.startTag tag) (.startTag tag')
  | endTag (name : String) : Reshaped rename keeps (.endTag name) (.endTag (rename name))
  | other {token : Token} (hother : token.isTag = false) : Reshaped rename keeps token token

variable {rename : String → String} {keeps : Attribute → Bool} {token token' : Token}

theorem exists_of_isStartTag (h : token.isStartTag = true) : ∃ tag, token = .startTag tag := by
  cases token with
  | startTag tag => exact ⟨tag, rfl⟩
  | _ => cases h

theorem startTag?_eq_none (h : token.isStartTag = false) : token.startTag? = none := by
  cases token with
  | startTag tag => cases h
  | _ => rfl

theorem Reshaped.isTag_eq (h : Reshaped rename keeps token token') :
    token'.isTag = token.isTag := by
  cases h <;> rfl

theorem Reshaped.eq_of_loose (h : Reshaped rename keeps token token')
    (hloose : token.isLoose = true) : token' = token := by
  cases h with
  | other hother => rfl
  | startTag hname hkept => cases hloose
  | endTag name => cases hloose

theorem reshaped_self_of_id (hrename : ∀ name, rename name = name) (token : Token) :
    Reshaped rename keeps token token := by
  cases token with
  | startTag tag => exact .startTag (hrename tag.name).symm rfl
  | endTag name =>
      have h : Reshaped rename keeps (.endTag name) (.endTag (rename name)) := .endTag name
      rwa [hrename] at h
  | _ => exact .other rfl

end Token

/-- Where start and end tags are renamed alike, tags that match still match. -/
theorem Nests.reshaped {rename : String → String} {keeps : Attribute → Bool}
    {tokens tokens' : List Token} (hnests : Nests tokens)
    (h : List.Forall₂ (Token.Reshaped rename keeps) tokens tokens') : Nests tokens' := by
  induction hnests generalizing tokens' with
  | nil =>
      rw [List.forall₂_nil_left_iff.mp h]
      exact .nil
  | loose hloose hrest ih =>
      obtain ⟨token', rest', htoken, hrest', rfl⟩ := List.forall₂_cons_left_iff.mp h
      rw [htoken.eq_of_loose hloose]
      exact .loose hloose (ih hrest')
  | @element tag inner rest hinner hrest ihinner ihrest =>
      obtain ⟨start, behind, hstart, hbehind, rfl⟩ := List.forall₂_cons_left_iff.mp h
      have hinner' := List.forall₂_take_append _ _ _ hbehind.flip
      have hclosed := List.forall₂_drop_append _ _ _ hbehind.flip
      obtain ⟨stop, rest', hstop, hrest', hdrop⟩ := List.forall₂_cons_left_iff.mp hclosed.flip
      rw [← List.take_append_drop inner.length behind, hdrop]
      cases hstart with
      | @startTag _ tag' hname hkept =>
          cases hstop with
          | endTag =>
              rw [← hname]
              exact .element (ihinner hinner'.flip) (ihrest hrest')
          | other hother => cases hother
      | other hother => cases hother

/-- The tags of tokens that stay what they are match if they did. -/
theorem Nests.filter_isTag {rename : String → String} {keeps : Attribute → Bool}
    {tokens tokens' : List Token} (h : List.Forall₂ (Token.Reshaped rename keeps) tokens tokens')
    (hnests : Nests (tokens.filter Token.isTag)) : Nests (tokens'.filter Token.isTag) := by
  refine hnests.reshaped (List.rel_filter ?_ h)
  intro token token' htoken
  show token.isTag = true ↔ token'.isTag = true
  rw [htoken.isTag_eq]

end PersistenceMapping
